import Mathlib.Data.Finset.Card
import Nosv.Lib.Run
import Nosv.TopoInit

/-!
# The topology is a hierarchy

A level under construction is described by `Built`: the domains made so far
share out the CPUs that have been updated, and a domain of a lower level with
an updated CPU is linked to that CPU's domain. A stage of `topo_init` extends
this to all CPUs and leaves the lower levels alone but for their links
(`Only`), so the levels stay as they were built.
-/

namespace Nosv

namespace TopoTables

variable {t t' t₁ : TopoTables} {k j : TopoLevel} {valid U : Finset Nat}

/-- `cpu_parent_lid`, by the system id of the CPU -/
def cpuParentLid (t : TopoTables) (k : TopoLevel) (c : Nat) : Int :=
  (t.dom .cpu (t.cpuLid c)).parents k

theorem mem_forEachCpu {cpus : Finset Nat} {c : Nat} :
    c ∈ forEachCpu cpus ↔ c < topoNrCpus ∧ c ∈ cpus := by
  simp [forEachCpu]

theorem nodup_forEachCpu (cpus : Finset Nat) : (forEachCpu cpus).Nodup :=
  List.nodup_range.filter _

theorem toFinset_forEachCpu {cpus : Finset Nat} (h : ∀ c ∈ cpus, c < topoNrCpus) :
    (forEachCpu cpus).toFinset = cpus := by
  ext c
  rw [List.mem_toFinset, mem_forEachCpu]
  exact ⟨fun hc => hc.2, fun hc => ⟨h c hc, hc⟩⟩

theorem mem_levelsBelow : j ∈ levelsBelow k ↔ k.rank < j.rank := by
  cases k <;> cases j <;> decide

theorem nodup_levelsBelow : (levelsBelow k).Nodup := by
  cases k <;> decide

theorem cpu_rank_max (hk : k ≠ .cpu) : k.rank < TopoLevel.rank .cpu := by
  cases k <;> first | decide | exact absurd rfl hk

theorem ne_of_rank_lt (h : k.rank < j.rank) : j ≠ k := by
  rintro rfl
  exact Nat.lt_irrefl _ h

@[simp] theorem setDom_sMax {l : Nat} {d : TopoDomain} : (t.setDom k l d).sMax = t.sMax := rfl

@[simp] theorem setDom_sToL {l : Nat} {d : TopoDomain} : (t.setDom k l d).sToL = t.sToL := rfl

@[simp] theorem setDom_count {l : Nat} {d : TopoDomain} : (t.setDom k l d).count = t.count := rfl

theorem setDom_dom_self {l : Nat} {d : TopoDomain} : (t.setDom k l d).dom k l = d := by
  simp [setDom]

theorem setDom_dom_ne {l l' : Nat} {d : TopoDomain} (h : j ≠ k ∨ l' ≠ l) :
    (t.setDom k l d).dom j l' = t.dom j l' := by
  by_cases hj : j = k
  · subst hj
    simp [setDom, h.resolve_left (not_not_intro rfl)]
  · simp [setDom, hj]

/-! ## What the construction of a level leaves alone -/

/-- Only the domains of level `k` and the links to them differ. -/
structure Only (k : TopoLevel) (t t' : TopoTables) : Prop where
  sToL : ∀ j ≠ k, t'.sToL j = t.sToL j
  count : ∀ j ≠ k, t'.count j = t.count j
  systemId : ∀ j ≠ k, ∀ l, (t'.dom j l).systemId = (t.dom j l).systemId
  sidMask : ∀ j ≠ k, ∀ l, (t'.dom j l).cpuSidMask = (t.dom j l).cpuSidMask
  lidMask : ∀ j ≠ k, ∀ l, (t'.dom j l).cpuLidMask = (t.dom j l).cpuLidMask
  parents : ∀ j ≠ k, ∀ i ≠ k, ∀ l, (t'.dom j l).parents i = (t.dom j l).parents i

theorem Only.refl (k : TopoLevel) (t : TopoTables) : Only k t t :=
  ⟨fun _ _ => rfl, fun _ _ => rfl, fun _ _ _ => rfl, fun _ _ _ => rfl, fun _ _ _ => rfl,
    fun _ _ _ _ _ => rfl⟩

theorem Only.trans (h : Only k t t₁) (h' : Only k t₁ t') : Only k t t' where
  sToL j hj := (h'.sToL j hj).trans (h.sToL j hj)
  count j hj := (h'.count j hj).trans (h.count j hj)
  systemId j hj l := (h'.systemId j hj l).trans (h.systemId j hj l)
  sidMask j hj l := (h'.sidMask j hj l).trans (h.sidMask j hj l)
  lidMask j hj l := (h'.lidMask j hj l).trans (h.lidMask j hj l)
  parents j hj i hi l := (h'.parents j hj i hi l).trans (h.parents j hj i hi l)

theorem Only.of_dom (hs : ∀ j ≠ k, t'.sToL j = t.sToL j) (hn : ∀ j ≠ k, t'.count j = t.count j)
    (hd : ∀ j ≠ k, t'.dom j = t.dom j) : Only k t t' where
  sToL := hs
  count := hn
  systemId j hj l := by rw [hd j hj]
  sidMask j hj l := by rw [hd j hj]
  lidMask j hj l := by rw [hd j hj]
  parents j hj i _ l := by rw [hd j hj]

theorem Only.setDom (l : Nat) (d : TopoDomain) : Only k t (t.setDom k l d) :=
  .of_dom (fun _ _ => rfl) (fun _ _ => rfl) fun _ hj => funext fun _ => setDom_dom_ne (.inl hj)

theorem Only.cpuLid (h : Only k t t') (hk : k ≠ .cpu) (c : Nat) : t'.cpuLid c = t.cpuLid c := by
  rw [TopoTables.cpuLid, h.sToL .cpu hk.symm, TopoTables.cpuLid]

theorem Only.cpuParentLid (h : Only k t t') (hk : k ≠ .cpu) (hj : j ≠ k) (c : Nat) :
    t'.cpuParentLid j c = t.cpuParentLid j c := by
  rw [TopoTables.cpuParentLid, h.cpuLid hk, h.parents .cpu hk.symm j hj, TopoTables.cpuParentLid]

/-! ## The CPUs -/

structure CpuLevel (t : TopoTables) (valid : Finset Nat) : Prop where
  sToL : ∀ c ∈ valid, t.sToL .cpu c = t.cpuLid c
  lt : ∀ c ∈ valid, t.cpuLid c < t.count .cpu
  systemId : ∀ c ∈ valid, (t.dom .cpu (t.cpuLid c)).systemId = c
  absent : ∀ c ∉ valid, t.sToL .cpu c = -1
  cover : ∀ l < t.count .cpu, ∃ c ∈ valid, t.cpuLid c = l
  card : t.count .cpu = valid.card
  own : ∀ l < t.count .cpu, (t.dom .cpu l).parents .cpu = l
  sidMask : ∀ c ∈ valid, (t.dom .cpu (t.cpuLid c)).cpuSidMask = {c}
  lidMask : ∀ c ∈ valid, (t.dom .cpu (t.cpuLid c)).cpuLidMask = {t.cpuLid c}

theorem CpuLevel.only (h : CpuLevel t valid) (ho : Only k t t') (hk : k ≠ .cpu) :
    CpuLevel t' valid := by
  have hc : t.count .cpu = t'.count .cpu := (ho.count .cpu hk.symm).symm
  have hs : t'.sToL .cpu = t.sToL .cpu := ho.sToL .cpu hk.symm
  refine ⟨fun c hv => ?_, fun c hv => ?_, fun c hv => ?_, fun c hv => ?_, fun l hl => ?_, ?_,
    fun l hl => ?_, fun c hv => ?_, fun c hv => ?_⟩
  · rw [hs, ho.cpuLid hk, h.sToL c hv]
  · rw [ho.cpuLid hk, ← hc]
    exact h.lt c hv
  · rw [ho.cpuLid hk, ho.systemId .cpu hk.symm, h.systemId c hv]
  · rw [hs, h.absent c hv]
  · obtain ⟨c, hv, rfl⟩ := h.cover l (hc ▸ hl)
    exact ⟨c, hv, ho.cpuLid hk c⟩
  · rw [← hc, h.card]
  · rw [ho.parents .cpu hk.symm .cpu hk.symm, h.own l (hc ▸ hl)]
  · rw [ho.cpuLid hk, ho.sidMask .cpu hk.symm, h.sidMask c hv]
  · rw [ho.cpuLid hk, ho.lidMask .cpu hk.symm, h.lidMask c hv]

theorem CpuLevel.cpuLid_inj (h : CpuLevel t valid) {c c' : Nat} (hc : c ∈ valid) (hc' : c' ∈ valid)
    (heq : t.cpuLid c = t.cpuLid c') : c = c' := by
  rw [← h.systemId c hc, heq, h.systemId c' hc']

theorem CpuLevel.cpuParentLid_cpu (h : CpuLevel t valid) {c : Nat} (hc : c ∈ valid) :
    t.cpuParentLid .cpu c = t.cpuLid c :=
  h.own _ (h.lt c hc)

theorem CpuLevel.mem_of_nonneg (h : CpuLevel t valid) {c : Nat} (hs : ¬ t.sToL .cpu c < 0) :
    c ∈ valid := by
  by_contra hc
  exact hs (by rw [h.absent c hc]; decide)

/-! ## A level under construction -/

/-- The first `n` domains of level `k`, made so far for the CPUs `U`. -/
structure Part (t : TopoTables) (valid : Finset Nat) (k : TopoLevel) (n : Nat) (U : Finset Nat) :
    Prop where
  sub : U ⊆ valid
  member : ∀ c ∈ U, ∃ m < n, t.cpuParentLid k c = (m : Nat)
  unset : ∀ c ∈ valid, c ∉ U → t.cpuParentLid k c = topoIdUnset
  sidMask : ∀ m < n, ∀ c, c ∈ (t.dom k m).cpuSidMask ↔ c ∈ U ∧ t.cpuParentLid k c = m
  lidMask : ∀ m < n, (t.dom k m).cpuLidMask = (t.dom k m).cpuSidMask.image t.cpuLid
  own : ∀ m < n, (t.dom k m).parents k = m
  below : ∀ j, k.rank < j.rank → ∀ c ∈ U, 0 ≤ t.cpuParentLid j c
    ∧ (t.dom j (t.cpuParentLid j c).toNat).parents k = t.cpuParentLid k c

/-- `s_to_l` and `system_id` on the first `n` domains -/
structure Ids (t : TopoTables) (k : TopoLevel) (n : Nat) : Prop where
  toSystem : ∀ m < n, t.sToL k (t.dom k m).systemId = m
  toLogical : ∀ x (l : Nat), t.sToL k x = l → l < n ∧ (t.dom k l).systemId = x

/-- The first `n` domains are done. -/
structure Built (t : TopoTables) (valid : Finset Nat) (k : TopoLevel) (n : Nat) (U : Finset Nat) :
    Prop where
  part : Part t valid k n U
  ids : Ids t k n
  nonempty : ∀ m < n, (t.dom k m).cpuSidMask.Nonempty

theorem Part.nonneg {n : Nat} (h : Part t valid k n U) {c : Nat} (hc : c ∈ U) :
    0 ≤ t.cpuParentLid k c := by
  obtain ⟨m, -, hm⟩ := h.member c hc
  omega

/-- A CPU whose parent is set has been updated. -/
theorem Part.mem_of_nonneg {n : Nat} (h : Part t valid k n U) {c : Nat} (hv : c ∈ valid)
    (hp : 0 ≤ t.cpuParentLid k c) : c ∈ U := by
  by_contra hc
  rw [h.unset c hv hc] at hp
  exact absurd hp (by decide)

theorem Part.congr {n : Nat} (h : Part t valid k n U)
    (hlid : ∀ c, t'.cpuLid c = t.cpuLid c)
    (hpar : ∀ j, k.rank ≤ j.rank → ∀ c, t'.cpuParentLid j c = t.cpuParentLid j c)
    (hself : ∀ m < n, t'.dom k m = t.dom k m
      ∨ (t'.dom k m).cpuSidMask = (t.dom k m).cpuSidMask
        ∧ (t'.dom k m).cpuLidMask = (t.dom k m).cpuLidMask
        ∧ (t'.dom k m).parents k = (t.dom k m).parents k)
    (hbelow : ∀ j, k.rank < j.rank → ∀ l, (t'.dom j l).parents k = (t.dom j l).parents k) :
    Part t' valid k n U := by
  have hsid : ∀ m < n, (t'.dom k m).cpuSidMask = (t.dom k m).cpuSidMask := fun m hm =>
    (hself m hm).elim (congrArg _) And.left
  refine ⟨h.sub, fun c hc => ?_, fun c hv hc => ?_, fun m hm c => ?_, fun m hm => ?_, fun m hm => ?_,
    fun j hj c hc => ?_⟩
  · rw [hpar k le_rfl]
    exact h.member c hc
  · rw [hpar k le_rfl, h.unset c hv hc]
  · rw [hsid m hm, hpar k le_rfl]
    exact h.sidMask m hm c
  · rw [hsid m hm, funext hlid, ← h.lidMask m hm]
    exact (hself m hm).elim (congrArg _) fun h => h.2.1
  · rw [← h.own m hm]
    exact (hself m hm).elim (fun h => by rw [h]) fun h => h.2.2
  · rw [hpar j hj.le, hpar k le_rfl, hbelow j hj]
    exact h.below j hj c hc

/-- Building a level further up keeps the level. -/
theorem Built.only {n : Nat} (h : Built t valid j n U) (ho : Only k t t') (hk : k.rank < j.rank) :
    Built t' valid j n U := by
  have hne : j ≠ k := ne_of_rank_lt hk
  have hcpu : k ≠ .cpu := by
    rintro rfl
    cases j <;> exact absurd hk (by decide)
  have hrank : ∀ i : TopoLevel, j.rank ≤ i.rank → i ≠ k := fun i hi => ne_of_rank_lt (hk.trans_le hi)
  refine ⟨?_, ⟨fun m hm => ?_, fun x l hl => ?_⟩, fun m hm => ?_⟩
  · exact h.part.congr (ho.cpuLid hcpu) (fun i hi => ho.cpuParentLid hcpu (hrank i hi))
      (fun m _ => .inr ⟨ho.sidMask j hne m, ho.lidMask j hne m, ho.parents j hne j hne m⟩)
      fun i hi l => ho.parents i (hrank i hi.le) j hne l
  · rw [ho.sToL j hne, ho.systemId j hne]
    exact h.ids.toSystem m hm
  · rw [ho.sToL j hne] at hl
    rw [ho.systemId j hne]
    exact h.ids.toLogical x l hl
  · rw [ho.sidMask j hne]
    exact h.nonempty m hm

/-! ## One CPU into a domain -/

/-- What the loop over the levels does to the links. -/
theorem foldlM_updateLevel {m cpu : Nat} {levels : List TopoLevel} (hk : k ∉ levels)
    (hnd : levels.Nodup)
    (h : levels.foldlM (updateLevel k m cpu) t = some t') :
    (∀ j ∈ levels, 0 ≤ (t.dom .cpu cpu).parents j
      ∧ ((t.dom j ((t.dom .cpu cpu).parents j).toNat).parents k = topoIdUnset
        ∨ (t.dom j ((t.dom .cpu cpu).parents j).toNat).parents k = m))
    ∧ t'.sToL = t.sToL ∧ t'.count = t.count ∧ t'.sMax = t.sMax
    ∧ ∀ j l, t'.dom j l = if j ∈ levels ∧ (t.dom .cpu cpu).parents j = l then
        { t.dom j l with parents := Function.update (t.dom j l).parents k (m : Int) }
      else t.dom j l := by
  induction levels generalizing t with
  | nil =>
    obtain rfl := Option.some.inj h
    simp
  | cons i levels ih =>
    obtain ⟨hi, hnd⟩ := List.nodup_cons.mp hnd
    rw [List.mem_cons, not_or] at hk
    rw [List.foldlM_cons] at h
    obtain ⟨t₁, h₁, h⟩ := Option.bind_eq_some_iff.mp h
    unfold updateLevel at h₁
    simp only [Option.ite_none_left_eq_some, not_and_or, not_not, Option.some.injEq, not_lt] at h₁
    obtain ⟨hnonneg, hprev, rfl⟩ := h₁
    -- the link from the CPU to each level stays, only its link to `k` is written
    have hlink : ∀ j ≠ k, ((t.domainSetParent i ((t.dom .cpu cpu).parents i).toNat k m).dom
        .cpu cpu).parents j = (t.dom .cpu cpu).parents j := by
      intro j hj
      by_cases hw : TopoLevel.cpu ≠ i ∨ cpu ≠ ((t.dom .cpu cpu).parents i).toNat
      · rw [domainSetParent, setDom_dom_ne hw]
      · obtain ⟨rfl, hl⟩ : TopoLevel.cpu = i ∧ cpu = ((t.dom .cpu cpu).parents i).toNat := by
          simpa [not_or] using hw
        rw [← hl, domainSetParent, setDom_dom_self]
        exact Function.update_of_ne hj _ _
    have hdom : ∀ j l, (t.domainSetParent i ((t.dom .cpu cpu).parents i).toNat k m).dom j l
        = if j = i ∧ (t.dom .cpu cpu).parents i = l then
            { t.dom j l with parents := Function.update (t.dom j l).parents k (m : Int) }
          else t.dom j l := by
      intro j l
      split
      case isTrue hjl =>
        obtain ⟨rfl, hl⟩ := hjl
        rw [hl, Int.toNat_natCast, domainSetParent, setDom_dom_self]
      case isFalse hjl =>
        refine setDom_dom_ne ?_
        by_cases hj : j = i
        · refine .inr fun hl => hjl ⟨hj, ?_⟩
          omega
        · exact .inl hj
    obtain ⟨hall, hs, hn, hm, hd⟩ := ih hk.2 hnd h
    refine ⟨fun j hj => ?_, hs, hn, hm, fun j l => ?_⟩
    · rcases List.mem_cons.mp hj with rfl | hj
      · exact ⟨hnonneg, hprev⟩
      · have hjk : j ≠ k := fun h => hk.2 (h ▸ hj)
        have hji : j ≠ i := fun h => hi (h ▸ hj)
        have := hall j hj
        rwa [hlink j hjk, hdom j, if_neg fun h => hji h.1] at this
    · rw [hd j l, hdom j l]
      by_cases hj : j ∈ levels
      · have hjk : j ≠ k := fun h => hk.2 (h ▸ hj)
        have hji : j ≠ i := fun h => hi (h ▸ hj)
        rw [hlink j hjk]
        simp [hj, hji]
      · by_cases hji : j = i
        · subst hji
          simp [hj]
        · simp [hj, hji]

/-- The domains of level `k` are those that were there: only CPUs and links
have been put in. -/
structure Fills (k : TopoLevel) (t t' : TopoTables) : Prop where
  only : Only k t t'
  sToL : t'.sToL = t.sToL
  count : t'.count = t.count
  sMax : t'.sMax = t.sMax
  systemId : ∀ l, (t'.dom k l).systemId = (t.dom k l).systemId

theorem Fills.refl (k : TopoLevel) (t : TopoTables) : Fills k t t :=
  ⟨.refl k t, rfl, rfl, rfl, fun _ => rfl⟩

theorem Fills.trans (h : Fills k t t₁) (h' : Fills k t₁ t') : Fills k t t' :=
  ⟨h.only.trans h'.only, h'.sToL.trans h.sToL, h'.count.trans h.count, h'.sMax.trans h.sMax,
    fun l => (h'.systemId l).trans (h.systemId l)⟩

theorem Ids.fills {n : Nat} (h : Ids t k n) (hf : Fills k t t') : Ids t' k n where
  toSystem m hm := by rw [hf.sToL, hf.systemId, h.toSystem m hm]
  toLogical x l hl := by
    rw [hf.systemId]
    exact h.toLogical x l (by rw [← hf.sToL, hl])

/-- What the tables are after one CPU has been put into domain `m`. -/
theorem updateCpuAndParents_eq (hk : k ≠ .cpu) {m c : Nat}
    (h : t.updateCpuAndParents k m c = some t') :
    ¬ t.sToL .cpu c < 0
    ∧ (∀ j, k.rank < j.rank → 0 ≤ t.cpuParentLid j c
      ∧ ((t.dom j (t.cpuParentLid j c).toNat).parents k = topoIdUnset
        ∨ (t.dom j (t.cpuParentLid j c).toNat).parents k = m))
    ∧ t'.sToL = t.sToL ∧ t'.count = t.count ∧ t'.sMax = t.sMax
    ∧ (∀ l ≠ m, t'.dom k l = t.dom k l)
    ∧ t'.dom k m = { t.dom k m with
        cpuSidMask := insert c (t.dom k m).cpuSidMask
        cpuLidMask := insert (t.cpuLid c) (t.dom k m).cpuLidMask }
    ∧ ∀ j ≠ k, ∀ l, t'.dom j l = if k.rank < j.rank ∧ t.cpuParentLid j c = l then
        { t.dom j l with parents := Function.update (t.dom j l).parents k (m : Int) }
      else t.dom j l := by
  unfold updateCpuAndParents at h
  simp only [Option.ite_none_left_eq_some, not_or] at h
  obtain ⟨⟨-, hs⟩, h⟩ := h
  have hself : k ∉ levelsBelow k := fun hin => Nat.lt_irrefl _ (mem_levelsBelow.mp hin)
  obtain ⟨hall, hsToL, hcount, hsMax, hdom⟩ := foldlM_updateLevel hself nodup_levelsBelow h
  have hcpu : ∀ d l, (t.setDom k m d).dom .cpu l = t.dom .cpu l := fun _ _ =>
    setDom_dom_ne (.inl hk.symm)
  simp only [hcpu, mem_levelsBelow] at hall hdom
  refine ⟨hs, fun j hj => ?_, hsToL, hcount, hsMax, fun l hl => ?_, ?_, fun j hj l => ?_⟩
  · have := hall j hj
    rwa [setDom_dom_ne (.inl (ne_of_rank_lt hj))] at this
  · rw [hdom, if_neg fun hin => Nat.lt_irrefl _ hin.1, setDom_dom_ne (.inr hl)]
  · rw [hdom, if_neg fun hin => Nat.lt_irrefl _ hin.1, setDom_dom_self]
  · rw [hdom, setDom_dom_ne (.inl hj)]
    rfl

theorem updateCpuAndParents_fills (hk : k ≠ .cpu) {m c : Nat}
    (h : t.updateCpuAndParents k m c = some t') : Fills k t t' := by
  obtain ⟨-, -, hsToL, hcount, hsMax, hother, hself, hdom⟩ := updateCpuAndParents_eq hk h
  refine ⟨⟨fun j _ => by rw [hsToL], fun j _ => by rw [hcount], ?_, ?_, ?_, ?_⟩, hsToL, hcount, hsMax,
    fun l => ?_⟩
  · intro j hj l
    rw [hdom j hj]
    split <;> rfl
  · intro j hj l
    rw [hdom j hj]
    split <;> rfl
  · intro j hj l
    rw [hdom j hj]
    split <;> rfl
  · intro j hj i hi l
    rw [hdom j hj]
    split
    · exact Function.update_of_ne hi _ _
    · rfl
  · by_cases hl : l = m
    · rw [hl, hself]
    · rw [hother l hl]

/-- The step of the loops over CPUs: the CPU is in no other domain of the
level, and the domain has it afterwards. -/
theorem Part.update {n m c : Nat} (hp : Part t valid k n U) (hc : CpuLevel t valid) (hk : k ≠ .cpu)
    (hm : m < n) (h : t.updateCpuAndParents k m c = some t') :
    c ∈ valid ∧ (c ∈ U → t.cpuParentLid k c = m) ∧ t'.cpuParentLid k c = m
    ∧ (∀ c' ∈ valid, c' ≠ c → t'.cpuParentLid k c' = t.cpuParentLid k c')
    ∧ Part t' valid k n (insert c U) := by
  have hf := updateCpuAndParents_fills hk h
  obtain ⟨hs, hall, -, -, -, hother, hself, hdom⟩ := updateCpuAndParents_eq hk h
  have hv : c ∈ valid := hc.mem_of_nonneg hs
  have hlid := hf.only.cpuLid hk
  have hparj : ∀ j ≠ k, ∀ c', t'.cpuParentLid j c' = t.cpuParentLid j c' := fun j hj =>
    hf.only.cpuParentLid hk hj
  have hcpu : k.rank < TopoLevel.rank .cpu := cpu_rank_max hk
  -- an earlier domain of the CPU can only have been `m`
  have hprev : c ∈ U → t.cpuParentLid k c = m := by
    intro hcU
    obtain ⟨m', -, hm'⟩ := hp.member c hcU
    have hlink := (hall .cpu hcpu).2
    rw [(hp.below .cpu hcpu c hcU).2, hm'] at hlink
    rcases hlink with hlink | hlink
    · exact absurd hlink (by unfold topoIdUnset; omega)
    · rw [hm', hlink]
  have hnew : t'.cpuParentLid k c = m := by
    rw [cpuParentLid, hlid, hdom .cpu hk.symm, if_pos ⟨hcpu, hc.cpuParentLid_cpu hv⟩]
    exact Function.update_self ..
  have hold : ∀ c' ∈ valid, c' ≠ c → t'.cpuParentLid k c' = t.cpuParentLid k c' := by
    intro c' hv' hne
    have hl : t.cpuLid c ≠ t.cpuLid c' := fun heq => hne (hc.cpuLid_inj hv hv' heq).symm
    rw [cpuParentLid, hlid, hdom .cpu hk.symm, hc.cpuParentLid_cpu hv,
      if_neg fun h => hl (Int.ofNat.inj h.2), cpuParentLid]
  refine ⟨hv, hprev, hnew, hold, ?_⟩
  have hsub : insert c U ⊆ valid := Finset.insert_subset hv hp.sub
  refine ⟨hsub, fun c' hc' => ?_, fun c' hv' hc' => ?_, fun m' hm' c' => ?_, fun m' hm' => ?_,
    fun m' hm' => ?_, fun j hj c' hc' => ?_⟩
  · by_cases hcc : c' = c
    · exact ⟨m, hm, hcc ▸ hnew⟩
    · rw [hold c' (hsub hc') hcc]
      exact hp.member c' (Finset.mem_of_mem_insert_of_ne hc' hcc)
  · rw [Finset.mem_insert, not_or] at hc'
    rw [hold c' hv' hc'.1]
    exact hp.unset c' hv' hc'.2
  · by_cases hcc : c' = c
    · subst hcc
      rw [hnew]
      by_cases hmm : m' = m
      · subst hmm
        rw [hself]
        simp
      · rw [hother m' hmm, hp.sidMask m' hm']
        refine ⟨fun hin => absurd ((hprev hin.1).symm.trans hin.2) fun heq => ?_,
          fun hin => absurd (Int.ofNat.inj hin.2).symm hmm⟩
        exact hmm (Int.ofNat.inj heq).symm
    · have hmask : c' ∈ (t'.dom k m').cpuSidMask ↔ c' ∈ (t.dom k m').cpuSidMask := by
        by_cases hmm : m' = m
        · subst hmm
          rw [hself]
          exact ⟨fun hin => Finset.mem_of_mem_insert_of_ne hin hcc, Finset.mem_insert_of_mem⟩
        · rw [hother m' hmm]
      rw [hmask, hp.sidMask m' hm', Finset.mem_insert, or_iff_right hcc]
      refine and_congr_right fun hin => ?_
      rw [hold c' (hp.sub hin) hcc]
  · rw [funext hlid]
    by_cases hmm : m' = m
    · subst hmm
      rw [hself, Finset.image_insert, ← hp.lidMask m' hm']
    · rw [hother m' hmm, hp.lidMask m' hm']
  · by_cases hmm : m' = m
    · subst hmm
      rw [hself]
      exact hp.own m' hm'
    · rw [hother m' hmm, hp.own m' hm']
  · have hjk : j ≠ k := ne_of_rank_lt hj
    rw [hparj j hjk, hdom j hjk]
    by_cases hcc : c' = c
    · subst hcc
      have hnn := (hall j hj).1
      refine ⟨hnn, ?_⟩
      rw [if_pos ⟨hj, (Int.toNat_of_nonneg hnn).symm⟩, hnew]
      exact Function.update_self ..
    · have hcU : c' ∈ U := Finset.mem_of_mem_insert_of_ne hc' hcc
      obtain ⟨hnn, hlink⟩ := hp.below j hj c' hcU
      refine ⟨hnn, ?_⟩
      rw [hold c' (hp.sub hcU) hcc]
      split
      case isFalse => exact hlink
      case isTrue hsame =>
        -- the two CPUs share the lower domain, so they share the upper one
        have hlink' := (hall j hj).2
        rw [hsame.2, Int.toNat_natCast, hlink] at hlink'
        refine (Function.update_self ..).trans ?_
        obtain ⟨m', -, hm'⟩ := hp.member c' hcU
        rcases hlink' with hlink' | hlink'
        · exact absurd (hm'.symm.trans hlink') (by unfold topoIdUnset; omega)
        · exact hlink'.symm

/-! ## A domain with its CPUs -/

theorem newDomain_parents {sid l : Nat} (h : j.rank < k.rank) :
    (newDomain k sid l).parents j = topoIdUnset :=
  (if_neg (ne_of_rank_lt h).symm).trans (if_pos h)

theorem initDomain_eq {sid n : Nat} (h : t.initDomain k sid n = some t') :
    (∀ j ≠ k, t'.dom j = t.dom j) ∧ (∀ l ≠ n, t'.dom k l = t.dom k l)
    ∧ t'.dom k n = newDomain k sid n ∧ t'.count = t.count ∧ t'.sMax = t.sMax
    ∧ (∀ j ≠ k, t'.sToL j = t.sToL j)
    ∧ t'.sToL k = Function.update (t.sToL k) sid (n : Int) := by
  unfold initDomain at h
  obtain ⟨-, h⟩ := Option.ite_none_left_eq_some.mp h
  obtain rfl := Option.some.inj h
  exact ⟨fun j hj => funext fun l => setDom_dom_ne (.inl hj), fun l hl => setDom_dom_ne (.inr hl),
    setDom_dom_self, rfl, rfl, fun j hj => Function.update_of_ne hj _ _, Function.update_self ..⟩

theorem initDomain_only {sid n : Nat} (h : t.initDomain k sid n = some t') : Only k t t' := by
  obtain ⟨hdom, -, -, hcount, -, hs, -⟩ := initDomain_eq h
  exact .of_dom hs (fun j _ => by rw [hcount]) hdom

theorem Part.initDomain {sid n : Nat} (hp : Part t valid k n U) (hk : k ≠ .cpu)
    (h : t.initDomain k sid n = some t') : Part t' valid k (n + 1) U := by
  obtain ⟨hdom, hother, hnew, -, -, -, -⟩ := initDomain_eq h
  have hlid := (initDomain_only h).cpuLid hk
  have hpar : ∀ j, ∀ c, t'.cpuParentLid j c = t.cpuParentLid j c := fun j c => by
    rw [cpuParentLid, hlid, hdom .cpu hk.symm, cpuParentLid]
  have hp' : Part t' valid k n U := hp.congr hlid (fun j _ => hpar j)
    (fun m hm => .inl (hother m hm.ne)) fun j hj l => by rw [hdom j (ne_of_rank_lt hj)]
  have hempty : (newDomain k sid n).cpuSidMask = ∅ := if_neg hk
  refine ⟨hp'.sub, fun c hc => ?_, hp'.unset, fun m hm c => ?_, fun m hm => ?_, fun m hm => ?_,
    hp'.below⟩
  · obtain ⟨m, hm, hcm⟩ := hp'.member c hc
    exact ⟨m, hm.trans (Nat.lt_succ_self n), hcm⟩
  · rcases Nat.lt_succ_iff_lt_or_eq.mp hm with hm | rfl
    · exact hp'.sidMask m hm c
    · rw [hnew, hempty]
      refine ⟨fun h => absurd h (Finset.notMem_empty c), fun ⟨hc, hcm⟩ => ?_⟩
      obtain ⟨m', hm', hcm'⟩ := hp'.member c hc
      omega
  · rcases Nat.lt_succ_iff_lt_or_eq.mp hm with hm | rfl
    · exact hp'.lidMask m hm
    · rw [hnew, hempty, Finset.image_empty]
      exact if_neg hk
  · rcases Nat.lt_succ_iff_lt_or_eq.mp hm with hm | rfl
    · exact hp'.own m hm
    · rw [hnew]
      exact if_pos rfl

theorem Ids.initDomain {sid n : Nat} (hi : Ids t k n) (hfresh : ∀ m < n, (t.dom k m).systemId ≠ sid)
    (h : t.initDomain k sid n = some t') : Ids t' k (n + 1) := by
  obtain ⟨-, hother, hnew, -, -, -, hs⟩ := initDomain_eq h
  refine ⟨fun m hm => ?_, fun x l hl => ?_⟩
  · rw [hs]
    rcases Nat.lt_succ_iff_lt_or_eq.mp hm with hm | rfl
    · rw [hother m hm.ne, Function.update_of_ne (hfresh m hm), hi.toSystem m hm]
    · rw [hnew]
      exact Function.update_self ..
  · rw [hs] at hl
    by_cases hx : x = sid
    · subst hx
      rw [Function.update_self] at hl
      obtain rfl := Int.ofNat.inj hl
      exact ⟨Nat.lt_succ_self n, by rw [hnew]; rfl⟩
    · rw [Function.update_of_ne hx] at hl
      obtain ⟨hln, hlx⟩ := hi.toLogical x l hl
      exact ⟨hln.trans (Nat.lt_succ_self n), by rw [hother l hln.ne, hlx]⟩

/-- The loop over the CPUs of a domain -/
theorem Part.updateCpus {n m : Nat} {cs : List Nat} (hp : Part t valid k n U) (hc : CpuLevel t valid)
    (hk : k ≠ .cpu) (hm : m < n) (h : cs.foldlM (updateCpuAndParents k m) t = some t') :
    (∀ c ∈ cs, c ∈ U → t.cpuParentLid k c = m) ∧ (∀ c ∈ cs, t'.cpuParentLid k c = m)
    ∧ (∀ c ∈ valid, c ∉ cs → t'.cpuParentLid k c = t.cpuParentLid k c)
    ∧ Part t' valid k n (U ∪ cs.toFinset) ∧ CpuLevel t' valid ∧ Fills k t t' := by
  induction cs generalizing t U with
  | nil =>
    obtain rfl := Option.some.inj h
    refine ⟨by simp, by simp, fun _ _ _ => rfl, ?_, hc, .refl k t⟩
    simpa using hp
  | cons c cs ih =>
    rw [List.foldlM_cons] at h
    obtain ⟨t₁, h₁, h⟩ := Option.bind_eq_some_iff.mp h
    have hf := updateCpuAndParents_fills hk h₁
    obtain ⟨hv, hprev, hnew, hold, hp₁⟩ := hp.update hc hk hm h₁
    obtain ⟨hmem, hset, hkeep, hp', hc', hf'⟩ := ih hp₁ (hc.only hf.only hk) h
    refine ⟨fun c' hc' hU => ?_, fun c' hc' => ?_, fun c' hv' hc' => ?_, ?_, hc', hf.trans hf'⟩
    · by_cases hcc : c' = c
      · subst hcc
        exact hprev hU
      · rw [← hold c' (hp.sub hU) hcc]
        exact hmem c' (List.mem_of_ne_of_mem hcc hc') (Finset.mem_insert_of_mem hU)
    · by_cases hin : c' ∈ cs
      · exact hset c' hin
      · obtain rfl : c' = c := (List.mem_cons.mp hc').resolve_right hin
        rw [hkeep c' hv hin, hnew]
    · rw [List.mem_cons, not_or] at hc'
      rw [hkeep c' hv' hc'.2, hold c' hv' hc'.1]
    · rwa [List.toFinset_cons, Finset.union_insert, ← Finset.insert_union]

/-- `topology_init_domain` and the loop over the CPUs: they are in none of
the earlier domains. -/
theorem Built.add {sid n : Nat} {cpus : Finset Nat} (hb : Built t valid k n U)
    (hc : CpuLevel t valid) (hk : k ≠ .cpu) (hi : t.initDomain k sid n = some t₁)
    (hu : t₁.updateCpus k n cpus = some t') (hne : ∃ c ∈ cpus, c < topoNrCpus)
    (hfresh : (∀ c ∈ forEachCpu cpus, c ∉ U) → ∀ m < n, (t.dom k m).systemId ≠ sid) :
    (∀ c ∈ forEachCpu cpus, c ∉ U) ∧ Built t' valid k (n + 1) (U ∪ (forEachCpu cpus).toFinset)
    ∧ CpuLevel t' valid ∧ Only k t t' ∧ t'.count = t.count
    ∧ (∀ m < n, (t'.dom k m).systemId = (t.dom k m).systemId) ∧ (t'.dom k n).systemId = sid := by
  have ho := initDomain_only hi
  obtain ⟨hdom, hother, hnew, hcount, -, -, -⟩ := initDomain_eq hi
  have hp₁ := hb.part.initDomain hk hi
  obtain ⟨hmem, hset, hkeep, hp', hc', hf⟩ :=
    hp₁.updateCpus (hc.only ho hk) hk (Nat.lt_succ_self n) hu
  have hpar : ∀ c, t₁.cpuParentLid k c = t.cpuParentLid k c := fun c => by
    rw [cpuParentLid, ho.cpuLid hk, hdom .cpu hk.symm, cpuParentLid]
  have hdisj : ∀ c ∈ forEachCpu cpus, c ∉ U := by
    intro c hin hU
    obtain ⟨m, hm, hcm⟩ := hb.part.member c hU
    have := hmem c hin hU
    rw [hpar] at this
    omega
  refine ⟨hdisj, ⟨hp', (hb.ids.initDomain (hfresh hdisj) hi).fills hf, fun m hm => ?_⟩, hc',
    ho.trans hf.only, hf.count.trans hcount, fun m hm => ?_, ?_⟩
  · rcases Nat.lt_succ_iff_lt_or_eq.mp hm with hm | rfl
    · obtain ⟨c, hcm⟩ := hb.nonempty m hm
      obtain ⟨hU, hcpar⟩ := (hb.part.sidMask m hm c).mp hcm
      refine ⟨c, (hp'.sidMask m (by omega) c).mpr ⟨Finset.mem_union_left _ hU, ?_⟩⟩
      rw [hkeep c (hb.part.sub hU) fun hin => hdisj c hin hU, hpar, hcpar]
    · obtain ⟨c, hcc, hlt⟩ := hne
      have hin : c ∈ forEachCpu cpus := mem_forEachCpu.mpr ⟨hlt, hcc⟩
      exact ⟨c, (hp'.sidMask m (Nat.lt_succ_self m) c).mpr
        ⟨Finset.mem_union_right _ (List.mem_toFinset.mpr hin), hset c hin⟩⟩
  · rw [hf.systemId, hother m hm.ne]
  · rw [hf.systemId, hnew]
    rfl

/-! ## The stages -/

/-- No CPU has a domain at the level yet. -/
def Fresh (t : TopoTables) (valid : Finset Nat) (k : TopoLevel) : Prop :=
  ∀ c ∈ valid, t.cpuParentLid k c = topoIdUnset

theorem Fresh.only (h : Fresh t valid j) (ho : Only k t t') (hk : k ≠ .cpu) (hj : j ≠ k) :
    Fresh t' valid j := fun c hc => by rw [ho.cpuParentLid hk hj, h c hc]

theorem Fresh.of_dom (h : Fresh t valid k) (ho : Only k t t') (hk : k ≠ .cpu)
    (hd : t'.dom .cpu = t.dom .cpu) : Fresh t' valid k := fun c hc => by
  rw [cpuParentLid, ho.cpuLid hk, hd]
  exact h c hc

theorem Built.start (h : Fresh t valid k) (hs : ∀ x, t.sToL k x = -1) : Built t valid k 0 ∅ := by
  refine ⟨⟨by simp, by simp, fun c hc _ => h c hc, by simp, by simp, by simp, by simp⟩,
    ⟨by simp, fun x l hl => ?_⟩, by simp⟩
  rw [hs] at hl
  omega

theorem initLevel_only {max : Int} {cnt : Nat} : Only k t (t.initLevel k max cnt) :=
  .of_dom (fun _ hj => Function.update_of_ne hj _ _) (fun _ hj => Function.update_of_ne hj _ _)
    fun _ _ => rfl

theorem initLevel_sToL {max : Int} {cnt x : Nat} : (t.initLevel k max cnt).sToL k x = -1 := by
  simp [initLevel]

theorem clearValid_only : Only k t (t.clearValid k) :=
  .of_dom (fun _ _ => rfl) (fun _ _ => rfl) fun _ _ => rfl

theorem truncateLevel_only {cnt : Nat} : Only k t (t.truncateLevel k cnt) :=
  .of_dom (fun _ _ => rfl) (fun _ hj => Function.update_of_ne hj _ _) fun _ _ => rfl

theorem truncateLevel_count {cnt : Nat} : (t.truncateLevel k cnt).count k = cnt :=
  Function.update_self ..

theorem Built.truncate {n cnt : Nat} (h : Built t valid k n U) :
    Built (t.truncateLevel k cnt) valid k n U :=
  ⟨h.part.congr (fun _ => rfl) (fun _ _ _ => rfl) (fun _ _ => .inl rfl) fun _ _ _ => rfl,
    ⟨h.ids.toSystem, h.ids.toLogical⟩, h.nonempty⟩

/-- The result of the stage for level `k` -/
structure Stage (t t' : TopoTables) (valid : Finset Nat) (k : TopoLevel) (U : Finset Nat) : Prop where
  built : Built t' valid k (t'.count k) U
  cpus : CpuLevel t' valid
  only : Only k t t'

/-- The invariant of the loop of `topology_init_cores` -/
structure CoreInv (t : TopoTables) (valid : Finset Nat) (scan : CoreScan) : Prop where
  built : Built scan.tables valid .core scan.coreLogical scan.visited
  cpus : CpuLevel scan.tables valid
  only : Only .core t scan.tables
  systemId : ∀ m < scan.coreLogical, (scan.tables.dom .core m).systemId ∈ scan.visited

theorem CoreInv.step {scan scan' : CoreScan} {siblings : Nat → Finset Nat} {c : Nat}
    (hinv : CoreInv t valid scan) (hlt : ∀ c ∈ valid, c < topoNrCpus)
    (h : coreStep valid siblings scan c = some scan') : CoreInv t valid scan' := by
  unfold coreStep at h
  split at h
  · obtain rfl := Option.some.inj h
    exact hinv
  · obtain ⟨sid, hsid, h⟩ := Option.bind_eq_some_iff.mp h
    obtain ⟨t₁, hi, h⟩ := Option.bind_eq_some_iff.mp h
    obtain ⟨t₂, hu, h⟩ := Option.bind_eq_some_iff.mp h
    obtain rfl := Option.some.inj h
    have hmem : sid ∈ forEachCpu (siblings c ∩ valid) := List.mem_of_mem_head? hsid
    obtain ⟨hsidlt, hsidin⟩ := mem_forEachCpu.mp hmem
    -- a core with the same first CPU would share that CPU
    obtain ⟨-, hb, hc, ho, -, hold, hnew⟩ := hinv.built.add hinv.cpus (by decide) hi hu
      ⟨sid, hsidin, hsidlt⟩ fun hdisj m hm heq => hdisj sid hmem (heq ▸ hinv.systemId m hm)
    rw [toFinset_forEachCpu fun c hc => hlt c (Finset.mem_inter.mp hc).2] at hb
    refine ⟨hb, hc, hinv.only.trans ho, fun m hm => ?_⟩
    rcases Nat.lt_succ_iff_lt_or_eq.mp hm with hm | rfl
    · rw [hold m hm]
      exact Finset.mem_union_left _ (hinv.systemId m hm)
    · rw [hnew]
      exact Finset.mem_union_right _ hsidin

theorem topologyInitCores_stage {siblings : Nat → Finset Nat} (hc : CpuLevel t valid)
    (hlt : ∀ c ∈ valid, c < topoNrCpus) (hfresh : Fresh t valid .core)
    (h : t.topologyInitCores valid siblings = some t') : ∃ U, Stage t t' valid .core U := by
  unfold topologyInitCores at h
  obtain ⟨scan, hscan, h⟩ := Option.bind_eq_some_iff.mp h
  obtain ⟨hcard, h⟩ := Option.ite_none_left_eq_some.mp h
  rw [not_not] at hcard
  obtain rfl := Option.some.inj h
  have ho : Only .core t ((t.clearValid .core).initLevel .core topoNrCpus topoNrCpus) :=
    clearValid_only.trans initLevel_only
  have hstart : CoreInv t valid ⟨(t.clearValid .core).initLevel .core topoNrCpus topoNrCpus, 0, ∅⟩ :=
    ⟨.start (hfresh.of_dom ho (by decide) rfl) fun x => initLevel_sToL, hc.only ho (by decide), ho, by simp⟩
  have hinv := Run.foldlM_induction (P := fun _ scan => CoreInv t valid scan) hscan hstart
    fun _ _ _ _ _ _ hinv hstep => hinv.step hlt hstep
  refine ⟨scan.visited, ?_, hinv.cpus.only truncateLevel_only (by decide),
    hinv.only.trans truncateLevel_only⟩
  rw [truncateLevel_count, ← hcard]
  exact hinv.built.truncate

/-- The invariant of the loops of `topology_init_from_config` -/
structure ConfigInv (t : TopoTables) (valid : Finset Nat) (k : TopoLevel) (U : Finset Nat)
    (scan : ConfigScan) : Prop where
  built : Built scan.tables valid k scan.logicalId U
  cpus : CpuLevel scan.tables valid
  only : Only k t scan.tables
  visited : scan.visitedCpus = U.card
  systemId : ∀ m < scan.logicalId, (scan.tables.dom k m).systemId < scan.systemId

theorem ConfigInv.addDomain {scan scan' : ConfigScan} {cpus : Finset Nat}
    (hinv : ConfigInv t valid k U scan) (hk : k ≠ .cpu) (hne : ∃ c ∈ cpus, c < topoNrCpus)
    (h : TopoTables.addDomain k scan cpus = some scan') :
    ConfigInv t valid k (U ∪ (forEachCpu cpus).toFinset) scan' := by
  unfold TopoTables.addDomain at h
  obtain ⟨t₁, hi, h⟩ := Option.bind_eq_some_iff.mp h
  obtain ⟨t₂, hu, h⟩ := Option.bind_eq_some_iff.mp h
  obtain rfl := Option.some.inj h
  obtain ⟨hdisj, hb, hc, ho, -, hold, hnew⟩ := hinv.built.add hinv.cpus hk hi hu hne
    fun _ m hm => (hinv.systemId m hm).ne
  refine ⟨hb, hc, hinv.only.trans ho, ?_, fun m hm => ?_⟩
  · have hd : Disjoint U (forEachCpu cpus).toFinset :=
      Finset.disjoint_right.mpr fun c hc => hdisj c (List.mem_toFinset.mp hc)
    rw [Finset.card_union_of_disjoint hd, List.toFinset_card_of_nodup (nodup_forEachCpu cpus),
      hinv.visited]
  · rcases Nat.lt_succ_iff_lt_or_eq.mp hm with hm | rfl
    · rw [hold m hm]
      exact (hinv.systemId m hm).trans (Nat.lt_succ_self _)
    · rw [hnew]
      exact Nat.lt_succ_self _

theorem ConfigInv.configStep {scan scan' : ConfigScan} {cpus : Finset Nat}
    (hinv : ConfigInv t valid k U scan) (hk : k ≠ .cpu) (hlt : ∀ c ∈ valid, c < topoNrCpus)
    (h : TopoTables.configStep k valid scan cpus = some scan') :
    ∃ U', ConfigInv t valid k U' scan' := by
  unfold TopoTables.configStep at h
  split at h
  · obtain rfl := Option.some.inj h
    exact ⟨U, hinv.built, hinv.cpus, hinv.only, hinv.visited, fun m hm =>
      (hinv.systemId m hm).trans (Nat.lt_succ_self _)⟩
  case isFalse hne =>
    obtain ⟨c, hc⟩ := Finset.nonempty_iff_ne_empty.mpr hne
    obtain ⟨hcc, hv⟩ := Finset.mem_inter.mp hc
    exact ⟨_, hinv.addDomain hk ⟨c, hcc, hlt c hv⟩ h⟩

theorem ConfigInv.remainingStep {scan scan' : ConfigScan} {below : TopoLevel} {n i : Nat}
    {V : Finset Nat} (hinv : ConfigInv t valid k U scan) (hk : k.rank < below.rank) (hcpu : k ≠ .cpu)
    (hlt : ∀ c ∈ valid, c < topoNrCpus) (hbelow : Built t valid below n V) (hi : i < n)
    (h : TopoTables.remainingStep k below scan i = some scan') :
    ∃ U', ConfigInv t valid k U' scan' := by
  have hb := hbelow.only hinv.only hk
  unfold TopoTables.remainingStep at h
  split at h
  · obtain ⟨c, hc⟩ := hb.nonempty i hi
    have hv : c ∈ valid := hb.part.sub ((hb.part.sidMask i hi c).mp hc).1
    exact ⟨_, hinv.addDomain hcpu ⟨c, hc, hlt c hv⟩ h⟩
  · obtain rfl := Option.some.inj h
    exact ⟨U, hinv⟩

theorem topologyInitFromConfig_stage {below : TopoLevel} {config : List (Finset Nat)}
    {createRemaining : Bool} {V : Finset Nat} (hc : CpuLevel t valid)
    (hlt : ∀ c ∈ valid, c < topoNrCpus) (hk : k.rank < below.rank) (hcpu : k ≠ .cpu)
    (hbelow : Built t valid below (t.count below) V) (hfresh : Fresh t valid k)
    (h : t.topologyInitFromConfig k below valid config createRemaining = some t') :
    Stage t t' valid k valid := by
  unfold topologyInitFromConfig at h
  obtain ⟨scan₁, hscan₁, h⟩ := Option.bind_eq_some_iff.mp h
  obtain ⟨scan₂, hscan₂, h⟩ := Option.bind_eq_some_iff.mp h
  obtain ⟨hvisited, h⟩ := Option.ite_none_left_eq_some.mp h
  rw [not_not] at hvisited
  obtain rfl := Option.some.inj h
  have ho : ∀ max cnt, Only k t (t.initLevel k max cnt) := fun _ _ => initLevel_only
  have hstart : ∀ max cnt, ConfigInv t valid k ∅ ⟨t.initLevel k max cnt, 0, 0, 0⟩ := fun _ _ =>
    ⟨.start (hfresh.of_dom (ho _ _) hcpu rfl) fun x => initLevel_sToL, hc.only (ho _ _) hcpu, ho _ _,
      rfl, by simp⟩
  have h₁ : ∃ U, ConfigInv t valid k U scan₁ :=
    Run.foldlM_induction (P := fun _ scan => ∃ U, ConfigInv t valid k U scan) hscan₁ ⟨∅, hstart _ _⟩
      fun _ _ _ _ _ _ ⟨_, hinv⟩ hstep => hinv.configStep hcpu hlt hstep
  have h₂ : ∃ U, ConfigInv t valid k U scan₂ := by
    refine Run.foldlM_induction (P := fun _ scan => ∃ U, ConfigInv t valid k U scan) hscan₂ h₁ ?_
    rintro done i rest s₁ s₂ hsplit ⟨U, hinv⟩ hstep
    have hi : i ∈ if createRemaining then List.range (t.count below) else [] := by simp [hsplit]
    have hlt' : i < t.count below := by
      split at hi
      · exact List.mem_range.mp hi
      · exact absurd hi List.not_mem_nil
    exact hinv.remainingStep hk hcpu hlt hbelow hlt' hstep
  obtain ⟨U, hinv⟩ := h₂
  -- as many CPUs as there are have been put into domains
  obtain rfl : U = valid := by
    refine Finset.eq_of_subset_of_card_le hinv.built.part.sub ?_
    rw [← hinv.visited, hvisited, hinv.cpus.card]
  refine ⟨?_, hinv.cpus.only truncateLevel_only hcpu, hinv.only.trans truncateLevel_only⟩
  rw [truncateLevel_count]
  exact hinv.built.truncate

/-! ### NUMA nodes from libnuma -/

/-- The invariant of the loop that makes the domains -/
structure NumaInv (t : TopoTables) (valid : Finset Nat) (nodeOf : Nat → Option Nat) (done : List Nat)
    (scan : NumaScan) : Prop where
  part : Part scan.tables valid .numa scan.logicalId ∅
  ids : Ids scan.tables .numa scan.logicalId
  cpus : CpuLevel scan.tables valid
  only : Only .numa t scan.tables
  systemId : ∀ m < scan.logicalId, (scan.tables.dom .numa m).systemId ∈ done
    ∧ ∃ c ∈ valid, nodeOf c = some (scan.tables.dom .numa m).systemId

theorem NumaInv.step {nodes : Finset Nat} {nodeOf : Nat → Option Nat} {done : List Nat}
    {scan scan' : NumaScan} {i : Nat} (hinv : NumaInv t valid nodeOf done scan) (hi : i ∉ done)
    (h : numaStep valid nodes nodeOf scan i = some scan') :
    NumaInv t valid nodeOf (done ++ [i]) scan' := by
  have hkeep : ∀ m < scan.logicalId, (scan.tables.dom .numa m).systemId ∈ done ++ [i]
      ∧ ∃ c ∈ valid, nodeOf c = some (scan.tables.dom .numa m).systemId := fun m hm =>
    ⟨List.mem_append_left _ (hinv.systemId m hm).1, (hinv.systemId m hm).2⟩
  unfold numaStep at h
  split at h
  case isFalse =>
    obtain rfl := Option.some.inj h
    exact ⟨hinv.part, hinv.ids, hinv.cpus, hinv.only, hkeep⟩
  split at h
  case isFalse =>
    obtain rfl := Option.some.inj h
    exact ⟨hinv.part, hinv.ids, hinv.cpus, hinv.only, hkeep⟩
  case isTrue hvalid =>
    obtain ⟨t₁, hd, h⟩ := Option.bind_eq_some_iff.mp h
    obtain rfl := Option.some.inj h
    have ho := initDomain_only hd
    obtain ⟨-, hother, hnew, -⟩ := initDomain_eq hd
    refine ⟨hinv.part.initDomain (by decide) hd, hinv.ids.initDomain ?_ hd,
      hinv.cpus.only ho (by decide), hinv.only.trans ho, fun m hm => ?_⟩
    · rintro m hm rfl
      exact hi (hinv.systemId m hm).1
    · rcases Nat.lt_succ_iff_lt_or_eq.mp hm with hm | rfl
      · rw [hother m hm.ne]
        exact hkeep m hm
      · rw [hnew]
        exact ⟨List.mem_append_right _ List.mem_cons_self, hvalid⟩

/-- The invariant of the loop over the CPUs -/
structure NumaCpuInv (t : TopoTables) (valid : Finset Nat) (nodeOf : Nat → Option Nat)
    (done : List Nat) (t' : TopoTables) : Prop where
  part : Part t' valid .numa (t'.count .numa) done.toFinset
  cpus : CpuLevel t' valid
  fills : Fills .numa t t'
  node : ∀ c ∈ done, ∃ i, nodeOf c = some i ∧ t'.sToL .numa i = t'.cpuParentLid .numa c

theorem NumaCpuInv.step {nodeOf : Nat → Option Nat} {done : List Nat} {s s' : TopoTables} {c : Nat}
    (hinv : NumaCpuInv t valid nodeOf done s) (hnew : c ∉ done)
    (h : numaCpuStep nodeOf s c = some s') : NumaCpuInv t valid nodeOf (done ++ [c]) s' := by
  unfold numaCpuStep at h
  obtain ⟨i, hnode, h⟩ := Option.bind_eq_some_iff.mp h
  obtain ⟨hok, hu⟩ := Option.ite_none_left_eq_some.mp h
  simp only [not_or, not_lt, not_le] at hok
  obtain ⟨-, hnn, hlt⟩ := hok
  have hk : TopoLevel.numa ≠ .cpu := by decide
  have hf := updateCpuAndParents_fills hk hu
  obtain ⟨-, -, hset, hold, hp⟩ := hinv.part.update hinv.cpus hk (by omega) hu
  refine ⟨?_, hinv.cpus.only hf.only hk, hinv.fills.trans hf, fun c' hc' => ?_⟩
  · rw [hf.count, List.toFinset_append, List.toFinset_cons, List.toFinset_nil, Finset.union_comm]
    exact hp
  · rw [hf.sToL]
    rcases List.mem_append.mp hc' with hc' | hc'
    · obtain ⟨i', hi', hs⟩ := hinv.node c' hc'
      have hv : c' ∈ valid := hinv.part.sub (List.mem_toFinset.mpr hc')
      exact ⟨i', hi', by rw [hold c' hv fun heq => hnew (heq ▸ hc'), hs]⟩
    · obtain rfl := List.mem_singleton.mp hc'
      exact ⟨i, hnode, by rw [hset, Int.toNat_of_nonneg hnn]⟩

theorem topologyInitNumaFromLibnuma_stage {nodes : Finset Nat} {numaMax : Int}
    {nodeOf : Nat → Option Nat} (hc : CpuLevel t valid) (hlt : ∀ c ∈ valid, c < topoNrCpus)
    (hfresh : Fresh t valid .numa)
    (h : t.topologyInitNumaFromLibnuma valid nodes numaMax nodeOf = some t') :
    Stage t t' valid .numa valid := by
  have hk : TopoLevel.numa ≠ .cpu := by decide
  unfold topologyInitNumaFromLibnuma at h
  obtain ⟨-, h⟩ := Option.ite_none_left_eq_some.mp h
  obtain ⟨scan, hscan, h⟩ := Option.bind_eq_some_iff.mp h
  obtain ⟨t₂, hloop, h⟩ := Option.bind_eq_some_iff.mp h
  obtain ⟨-, h⟩ := Option.ite_none_left_eq_some.mp h
  obtain rfl := Option.some.inj h
  have ho : Only .numa t ((t.clearValid .numa).initLevel .numa numaMax (t.count .numa)) :=
    clearValid_only.trans initLevel_only
  have hstart : NumaInv t valid nodeOf []
      ⟨(t.clearValid .numa).initLevel .numa numaMax (t.count .numa), 0, 0⟩ := by
    have hb := Built.start (hfresh.of_dom ho hk rfl) fun x => initLevel_sToL
    exact ⟨hb.part, hb.ids, hc.only ho hk, ho, by simp⟩
  have hinv := Run.foldlM_induction (P := NumaInv t valid nodeOf) hscan hstart
    fun done i rest _ _ hsplit hinv hstep => by
      have hnd : (done ++ i :: rest).Nodup := hsplit ▸ List.nodup_range
      exact hinv.step (fun hin => (List.disjoint_of_nodup_append hnd hin List.mem_cons_self)) hstep
  -- the second loop starts from the tables cut to the domains made
  have hids : Ids (scan.tables.truncateLevel .numa scan.logicalId) .numa scan.logicalId :=
    ⟨hinv.ids.toSystem, hinv.ids.toLogical⟩
  have htrunc : Only .numa scan.tables (scan.tables.truncateLevel .numa scan.logicalId) :=
    truncateLevel_only
  have hstart₂ : NumaCpuInv (scan.tables.truncateLevel .numa scan.logicalId) valid nodeOf []
      (scan.tables.truncateLevel .numa scan.logicalId) := by
    refine ⟨?_, hinv.cpus.only htrunc hk, .refl _ _, by simp⟩
    rw [truncateLevel_count, List.toFinset_nil]
    exact hinv.part.congr (fun _ => rfl) (fun _ _ _ => rfl) (fun _ _ => .inl rfl) fun _ _ _ => rfl
  have hinv₂ := Run.foldlM_induction
    (P := NumaCpuInv (scan.tables.truncateLevel .numa scan.logicalId) valid nodeOf) hloop hstart₂
    fun done c rest _ _ hsplit hinv hstep => by
      have hnd : (done ++ c :: rest).Nodup := hsplit ▸ nodup_forEachCpu valid
      exact hinv.step (fun hin => (List.disjoint_of_nodup_append hnd hin List.mem_cons_self)) hstep
  have hcount : t₂.count .numa = scan.logicalId := by
    rw [hinv₂.fills.count, truncateLevel_count]
  have hpart := hinv₂.part
  rw [toFinset_forEachCpu hlt] at hpart
  have hids₂ : Ids t₂ .numa scan.logicalId := hids.fills hinv₂.fills
  refine ⟨⟨hpart, hcount ▸ hids₂, fun m hm => ?_⟩, hinv₂.cpus,
    (hinv.only.trans htrunc).trans hinv₂.fills.only⟩
  -- a domain was made because libnuma has a valid CPU in it
  rw [hcount] at hm
  obtain ⟨-, c, hv, hnode⟩ := hinv.systemId m hm
  obtain ⟨i, hi, hs⟩ := hinv₂.node c (mem_forEachCpu.mpr ⟨hlt c hv, hv⟩)
  have hsid : (t₂.dom .numa m).systemId = i := by
    rw [hinv₂.fills.systemId]
    exact Option.some.inj (hnode.symm.trans hi)
  refine ⟨c, (hpart.sidMask m (hcount ▸ hm) c).mpr ⟨hv, ?_⟩⟩
  rw [← hs, ← hsid, hids₂.toSystem m hm]

theorem topologyInitNuma_stage {source : NumaSource} {V : Finset Nat} (hc : CpuLevel t valid)
    (hlt : ∀ c ∈ valid, c < topoNrCpus)
    (hbelow : Built t valid .complexSet (t.count .complexSet) V) (hfresh : Fresh t valid .numa)
    (h : t.topologyInitNuma valid source = some t') : Stage t t' valid .numa valid := by
  cases source with
  | config sets =>
    exact topologyInitFromConfig_stage hc hlt (by decide) (by decide) hbelow hfresh h
  | libnuma nodes numaMax nodeOf => exact topologyInitNumaFromLibnuma_stage hc hlt hfresh h

theorem topologyInitNode_stage (hc : CpuLevel t valid) (hlt : ∀ c ∈ valid, c < topoNrCpus)
    (hne : valid.Nonempty) (hfresh : Fresh t valid .node)
    (h : t.topologyInitNode valid = some t') : Stage t t' valid .node valid := by
  have hk : TopoLevel.node ≠ .cpu := by decide
  unfold topologyInitNode at h
  obtain ⟨t₁, hi, hu⟩ := Option.bind_eq_some_iff.mp h
  have ho : Only .node t (((t.initLevel .node 0 1).truncateLevel .node 1).clearValid .node) :=
    (initLevel_only.trans truncateLevel_only).trans clearValid_only
  have hstart := Built.start (hfresh.of_dom ho hk rfl) fun x => by
    simp [initLevel, truncateLevel, clearValid]
  obtain ⟨c, hv⟩ := hne
  obtain ⟨-, hb, hc', ho', hcount, -, -⟩ := hstart.add (hc.only ho hk) hk hi hu
    ⟨c, hv, hlt c hv⟩ fun _ m hm => absurd hm (Nat.not_lt_zero m)
  have hone : t'.count .node = 1 := by
    rw [hcount]
    simp [clearValid, truncateLevel]
  rw [toFinset_forEachCpu hlt, Finset.empty_union] at hb
  exact ⟨hone ▸ hb, hc', ho.trans ho'⟩

/-! ### The CPUs -/

/-- The CPUs gone through so far have the logical ids in their order. -/
structure CpuInv (t t' : TopoTables) (done : List Nat) : Prop where
  dom : ∀ l (hl : l < done.length), t'.dom .cpu l = newDomain .cpu (done.get ⟨l, hl⟩) l
  sToL : ∀ l (hl : l < done.length), t'.sToL .cpu (done.get ⟨l, hl⟩) = l
  absent : ∀ c ∉ done, t'.sToL .cpu c = -1
  count : t'.count = t.count

theorem CpuInv.step {s s' : TopoTables} {done : List Nat} {c : Nat} (hinv : CpuInv t s done)
    (hc : c ∉ done) (h : s.initDomain .cpu c done.length = some s') :
    CpuInv t s' (done ++ [c]) := by
  obtain ⟨-, hother, hnew, hcount, -, -, hs⟩ := initDomain_eq h
  refine ⟨fun l hl => ?_, fun l hl => ?_, fun x hx => ?_, hcount.trans hinv.count⟩
  · by_cases hlt : l < done.length
    · rw [hother l hlt.ne, hinv.dom l hlt]
      simp [hlt]
    · obtain rfl : l = done.length := by simp at hl; omega
      simpa using hnew
  · rw [hs]
    by_cases hlt : l < done.length
    · have hne : done.get ⟨l, hlt⟩ ≠ c := fun heq => hc (heq ▸ List.get_mem _ _)
      have hget : (done ++ [c]).get ⟨l, hl⟩ = done.get ⟨l, hlt⟩ := by
        simp [hlt]
      rw [hget, Function.update_of_ne hne, hinv.sToL l hlt]
    · obtain rfl : l = done.length := by simp at hl; omega
      simp
  · rw [List.mem_append, List.mem_singleton, not_or] at hx
    rw [hs, Function.update_of_ne hx.2, hinv.absent x hx.1]

theorem CpuInv.run {s : TopoTables} {done cs : List Nat} (hinv : CpuInv t s done)
    (hnd : (done ++ cs).Nodup) (h : initCpus s done.length cs = some t') :
    CpuInv t t' (done ++ cs) := by
  induction cs generalizing s done with
  | nil =>
    obtain rfl := Option.some.inj h
    rwa [List.append_nil]
  | cons c cs ih =>
    rw [initCpus] at h
    obtain ⟨s₁, h₁, h⟩ := Option.bind_eq_some_iff.mp h
    have hc : c ∉ done := fun hin => List.disjoint_of_nodup_append hnd hin List.mem_cons_self
    rw [List.append_cons] at hnd ⊢
    exact ih (hinv.step hc h₁) hnd (by rwa [List.length_append])

theorem CpuInv.cpuLevel {done : List Nat} (hinv : CpuInv t t' done) (hcount : t.count .cpu = done.length)
    (hnd : done.Nodup) : CpuLevel t' done.toFinset := by
  have hsurj : ∀ c ∈ done.toFinset, ∃ l, ∃ hl : l < done.length, done.get ⟨l, hl⟩ = c ∧ t'.cpuLid c = l := by
    intro c hc
    obtain ⟨⟨l, hl⟩, rfl⟩ := List.get_of_mem (List.mem_toFinset.mp hc)
    refine ⟨l, hl, rfl, ?_⟩
    rw [cpuLid, hinv.sToL l hl, Int.toNat_natCast]
  have hn : t'.count .cpu = done.length := by rw [hinv.count, hcount]
  refine ⟨fun c hc => ?_, fun c hc => ?_, fun c hc => ?_, fun c hc => ?_, fun l hl => ?_, ?_, fun l hl => ?_,
    fun c hc => ?_, fun c hc => ?_⟩
  · obtain ⟨l, hl, rfl, hlid⟩ := hsurj c hc
    rw [hlid, hinv.sToL l hl]
  · obtain ⟨l, hl, -, hlid⟩ := hsurj c hc
    rwa [hlid, hn]
  · obtain ⟨l, hl, rfl, hlid⟩ := hsurj c hc
    rw [hlid, hinv.dom l hl]
    rfl
  · exact hinv.absent c fun hin => hc (List.mem_toFinset.mpr hin)
  · rw [hn] at hl
    refine ⟨done.get ⟨l, hl⟩, List.mem_toFinset.mpr (List.get_mem _ _), ?_⟩
    rw [cpuLid, hinv.sToL l hl, Int.toNat_natCast]
  · rw [hn, List.toFinset_card_of_nodup hnd]
  · rw [hinv.dom l (hn ▸ hl)]
    simp [newDomain]
  · obtain ⟨l, hl, rfl, hlid⟩ := hsurj c hc
    rw [hlid, hinv.dom l hl]
    simp [newDomain]
  · obtain ⟨l, hl, rfl, hlid⟩ := hsurj c hc
    rw [hlid, hinv.dom l hl]
    simp [newDomain]

theorem topologyInitCpus_level (hlt : ∀ c ∈ valid, c < topoNrCpus)
    (h : t.topologyInitCpus valid = some t') :
    CpuLevel t' valid ∧ ∀ j ≠ .cpu, Fresh t' valid j := by
  unfold topologyInitCpus at h
  have hnd := nodup_forEachCpu valid
  have hstart : CpuInv { t.initLevel .cpu topoNrCpus (forEachCpu valid).length with
      validDomains := Function.update t.validDomains .cpu valid }
      { t.initLevel .cpu topoNrCpus (forEachCpu valid).length with
        validDomains := Function.update t.validDomains .cpu valid } [] :=
    ⟨by simp, by simp, fun c _ => by simp [initLevel], rfl⟩
  have hinv : CpuInv _ t' ([] ++ forEachCpu valid) := hstart.run (by rwa [List.nil_append]) h
  rw [List.nil_append] at hinv
  have hc := hinv.cpuLevel (by simp [initLevel]) hnd
  rw [toFinset_forEachCpu hlt] at hc
  refine ⟨hc, fun j hj c hv => ?_⟩
  have hl : t'.cpuLid c < (forEachCpu valid).length := by
    have := hc.lt c hv
    rwa [hc.card, ← toFinset_forEachCpu hlt, List.toFinset_card_of_nodup hnd] at this
  rw [cpuParentLid, hinv.dom _ hl, newDomain_parents (cpu_rank_max hj)]

/-- The CPUs as a level like the others -/
theorem CpuLevel.built (h : CpuLevel t valid) : Built t valid .cpu (t.count .cpu) valid := by
  refine ⟨⟨Finset.Subset.refl valid, fun c hv => ⟨_, h.lt c hv, h.cpuParentLid_cpu hv⟩,
    fun c hv hc => absurd hv hc, fun m hm c => ?_, fun m hm => ?_, h.own, fun j hj => ?_⟩,
    ⟨fun m hm => ?_, fun x l hl => ?_⟩, fun m hm => ?_⟩
  · obtain ⟨c', hv', rfl⟩ := h.cover m hm
    rw [h.sidMask c' hv', Finset.mem_singleton]
    constructor
    · rintro rfl
      exact ⟨hv', h.cpuParentLid_cpu hv'⟩
    · rintro ⟨hv, heq⟩
      rw [h.cpuParentLid_cpu hv] at heq
      exact h.cpuLid_inj hv hv' (Int.ofNat.inj heq)
  · obtain ⟨c', hv', rfl⟩ := h.cover m hm
    rw [h.sidMask c' hv', h.lidMask c' hv', Finset.image_singleton]
  · cases j <;> exact absurd hj (by decide)
  · obtain ⟨c', hv', rfl⟩ := h.cover m hm
    rw [h.systemId c' hv', h.sToL c' hv']
  · by_cases hv : x ∈ valid
    · rw [h.sToL x hv] at hl
      obtain rfl := Int.ofNat.inj hl
      exact ⟨h.lt x hv, h.systemId x hv⟩
    · rw [h.absent x hv] at hl
      omega
  · obtain ⟨c', hv', rfl⟩ := h.cover m hm
    rw [h.sidMask c' hv']
    exact Finset.singleton_nonempty c'

/-! ## The whole -/

/-- All levels built and full -/
theorem hierarchy_of_built (hc : CpuLevel t valid)
    (hb : ∀ k, Built t valid k (t.count k) valid) : t.Hierarchy valid where
  own level l hl := (hb level).part.own l hl
  nonempty level l hl := (hb level).nonempty l hl
  disjoint level l hl l' hl' hne := by
    refine Finset.disjoint_left.mpr fun c hcl hcl' => hne ?_
    have h := ((hb level).part.sidMask l hl c).mp hcl
    have h' := ((hb level).part.sidMask l' hl' c).mp hcl'
    exact Int.ofNat.inj (h.2.symm.trans h'.2)
  union level c := by
    constructor
    · intro hv
      obtain ⟨m, hm, hcm⟩ := (hb level).part.member c hv
      exact ⟨m, hm, ((hb level).part.sidMask m hm c).mpr ⟨hv, hcm⟩⟩
    · rintro ⟨l, hl, hcl⟩
      exact (((hb level).part.sidMask l hl c).mp hcl).1
  lidMask level l hl i := by
    rw [(hb level).part.lidMask l hl, Finset.mem_image]
    refine exists_congr fun c => and_congr_right fun hcl => ?_
    rw [hc.sToL c (((hb level).part.sidMask l hl c).mp hcl).1]
    exact Int.natCast_inj.symm
  sToL_systemId level l hl := (hb level).ids.toSystem l hl
  systemId_sToL level x l h := (hb level).ids.toLogical x l h
  parents level k hk l hl := by
    -- a CPU of the domain, and its domain of level `k`
    obtain ⟨c, hcl⟩ := (hb level).nonempty l hl
    obtain ⟨hv, hlid⟩ := ((hb level).part.sidMask l hl c).mp hcl
    obtain ⟨m, hm, hcm⟩ := (hb k).part.member c hv
    have hlink : ∀ c ∈ (t.dom level l).cpuSidMask, (t.dom level l).parents k = t.cpuParentLid k c := by
      intro c hcl
      obtain ⟨hv, hlid⟩ := ((hb level).part.sidMask l hl c).mp hcl
      have := ((hb k).part.below level hk c hv).2
      rwa [hlid, Int.toNat_natCast] at this
    refine ⟨m, hm, by rw [hlink c hcl, hcm], fun m' hm' => ⟨fun hsub => ?_, ?_⟩⟩
    · have h := ((hb k).part.sidMask m' hm' c).mp (hsub hcl)
      exact Int.ofNat.inj (h.2.symm.trans hcm)
    · rintro rfl c' hcl'
      refine ((hb k).part.sidMask m' hm' c').mpr ⟨(((hb level).part.sidMask l hl c').mp hcl').1, ?_⟩
      rw [← hlink c' hcl', hlink c hcl, hcm]

theorem topoInit_hierarchy (memory : TopoTables) (desc : TopoDescription) (t : TopoTables)
    (h : topoInit memory desc = some t) : t.Hierarchy desc.validCpus := by
  unfold topoInit at h
  obtain ⟨t₁, h₁, h⟩ := Option.bind_eq_some_iff.mp h
  obtain ⟨t₂, h₂, h⟩ := Option.bind_eq_some_iff.mp h
  obtain ⟨t₃, h₃, h⟩ := Option.bind_eq_some_iff.mp h
  obtain ⟨t₄, h₄, h⟩ := Option.bind_eq_some_iff.mp h
  obtain ⟨t₅, h₅, h⟩ := Option.bind_eq_some_iff.mp h
  obtain ⟨-, h⟩ := Option.ite_none_right_eq_some.mp h
  obtain rfl := Option.some.inj h
  have hlt := desc.validCpus_lt
  obtain ⟨hc₁, hfresh⟩ := topologyInitCpus_level hlt h₁
  obtain ⟨U, s₂⟩ := topologyInitCores_stage hc₁ hlt (hfresh .core (by decide)) h₂
  have s₃ := topologyInitFromConfig_stage s₂.cpus hlt (by decide) (by decide) s₂.built
    ((hfresh .complexSet (by decide)).only s₂.only (by decide) (by decide)) h₃
  have o₃ := fun j hj hj' => ((hfresh j hj).only s₂.only (by decide) hj').only s₃.only (by decide)
  have s₄ := topologyInitNuma_stage s₃.cpus hlt s₃.built
    (o₃ .numa (by decide) (by decide) (by decide)) h₄
  have s₅ := topologyInitNode_stage s₄.cpus hlt desc.validCpus_nonempty
    ((o₃ .node (by decide) (by decide) (by decide)).only s₄.only (by decide) (by decide)) h₅
  -- the later stages keep the levels
  have numa := s₄.built.only s₅.only (by decide)
  have complexSet := (s₃.built.only s₄.only (by decide)).only s₅.only (by decide)
  have core := ((s₂.built.only s₃.only (by decide)).only s₄.only (by decide)).only s₅.only (by decide)
  rw [← s₅.only.count _ (by decide)] at numa
  rw [← s₄.only.count _ (by decide), ← s₅.only.count _ (by decide)] at complexSet
  rw [← s₃.only.count _ (by decide), ← s₄.only.count _ (by decide),
    ← s₅.only.count _ (by decide)] at core
  -- the node has all CPUs, and each of them has a core
  have hfull : U = desc.validCpus := by
    refine Finset.Subset.antisymm core.part.sub fun c hv => ?_
    exact core.part.mem_of_nonneg hv (s₅.built.part.below .core (by decide) c hv).1
  refine hierarchy_of_built s₅.cpus fun k => ?_
  cases k with
  | node => exact s₅.built
  | numa => exact numa
  | complexSet => exact complexSet
  | core => exact hfull ▸ core
  | cpu => exact s₅.cpus.built

/-- Three CPUs, two of them on one core, and two complex sets, of which the
configuration has one; libnuma knows a node without CPUs. -/
def threeCpus : TopoDescription where
  validCpus := {1, 2, 4}
  siblings c := if c = 4 then {4} else {1, 2}
  complexSets := [{4}]
  numa := .libnuma {0, 1, 3} 3 fun c => some (if c = 4 then 3 else 1)
  validCpus_nonempty := by decide
  validCpus_lt := by decide

/-- Some memory to begin with -/
def someMemory : TopoTables where
  validDomains _ := ∅
  count _ := 0
  sMax _ := 0
  sToL _ _ := 0
  dom _ _ := newDomain .node 0 0

theorem topoInit_hierarchy_three :
    ∃ t, topoInit someMemory threeCpus = some t ∧ t.Hierarchy {1, 2, 4} := by
  have hsome : (topoInit someMemory threeCpus).isSome := by decide +kernel
  obtain ⟨t, ht⟩ := Option.isSome_iff_exists.mp hsome
  exact ⟨t, ht, topoInit_hierarchy someMemory threeCpus t ht⟩

end TopoTables

end Nosv
