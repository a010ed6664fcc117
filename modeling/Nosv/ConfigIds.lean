import Nosv.ConfiguredLevels

/-!
# System ids and the size of their map

`topology_init_from_config` sizes `s_to_l` by the number of domains of the
level below, and passes on indices of lists, or a counter that goes on from
their number. The ids passed are collected as far as the function gets.
-/

namespace Nosv

namespace TopoTables

variable {t t' : TopoTables} {k below : TopoLevel} {valid : Finset Nat} {config : List (Finset Nat)}
  {createRemaining : Bool} {max : Int} {made : List (Finset Nat × Nat)} {scan : ConfigScan}
  {is : List Nat}

/-- The variables before the first loop -/
def configStart (t : TopoTables) (k below : TopoLevel) : ConfigScan :=
  ⟨t.initLevel k (t.count below - 1) (t.count below), 0, 0, 0⟩

/-- The ids that the first loop passes to `topology_init_domain` -/
def passedByLists (k : TopoLevel) (valid : Finset Nat) : ConfigScan → List (Finset Nat) → List Nat
  | _, [] => []
  | scan, cpus :: config =>
      if cpus ∩ valid = ∅ then passedByLists k valid { scan with systemId := scan.systemId + 1 } config
      else
        scan.systemId ::
          match addDomain k scan cpus with
          | none => []
          | some scan => passedByLists k valid scan config

/-- The ids that the second loop passes to it -/
def passedByRemaining (k below : TopoLevel) : ConfigScan → List Nat → List Nat
  | _, [] => []
  | scan, i :: is =>
      if (scan.tables.dom below i).parents k = topoIdUnset then
        scan.systemId ::
          match addDomain k scan (scan.tables.dom below i).cpuSidMask with
          | none => []
          | some scan => passedByRemaining k below scan is
      else passedByRemaining k below scan is

/-- All ids that the function passes -/
def passedIds (t : TopoTables) (k below : TopoLevel) (valid : Finset Nat) (config : List (Finset Nat))
    (createRemaining : Bool) : List Nat :=
  passedByLists k valid (t.configStart k below) config ++
    match config.foldlM (configStep k valid) (t.configStart k below) with
    | none => []
    | some scan => if createRemaining then passedByRemaining k below scan (List.range (t.count below)) else []

/-- Each id passed has an entry in `s_to_l`, and the ids of the domains made
are mapped to their logical ids. -/
structure IdsInside (t : TopoTables) (k below : TopoLevel) (valid : Finset Nat) (config : List (Finset Nat))
    (createRemaining : Bool) : Prop where
  passed : ∀ id ∈ t.passedIds k below valid config createRemaining,
    (id : Int) ≤ (t.configStart k below).tables.sMax k
  logical : ∀ t', t.topologyInitFromConfig k below valid config createRemaining = some t' →
    ∀ m < t'.count k, t'.sToL k (t'.dom k m).systemId = m

/-- A list that meets the binding, if the ones before it share no lower
domain, comes before the place of the last domain of the level below; and if
no lists share a lower domain, the remaining domains have places behind the
number of lists. -/
structure IdsFit (t : TopoTables) (k below : TopoLevel) (valid : Finset Nat) (config : List (Finset Nat))
    (createRemaining : Bool) : Prop where
  lists : ∀ pre p post, kept valid config 0 = pre ++ p :: post →
    (pre.Pairwise fun p q => Apart t k p.1 q.1) → p.2 < t.count below
  remaining : createRemaining = true → ((kept valid config 0).Pairwise fun p q => Apart t k p.1 q.1) →
    t.uncovered below valid config = []
      ∨ config.length + (t.uncovered below valid config).length ≤ t.count below

/-! ## The loops -/

/-- Each list whose predecessors are apart is reached. -/
theorem Makes.passedByLists_iff (hp : Prepared t valid k) (hk : k ≠ .cpu)
    (hlt : ∀ cpus ∈ config, ∀ c ∈ cpus, c < topoNrCpus)
    (hinside : ∀ cpus ∈ config, cpus ⊆ valid ∨ Disjoint cpus valid)
    (h : Makes t valid k max made scan) :
    (∀ id ∈ passedByLists k valid scan config, (id : Int) ≤ max)
      ↔ ∀ pre p post, kept valid config scan.systemId = pre ++ p :: post →
        ((made ++ pre).Pairwise fun p q => Apart t k p.1 q.1) → (p.2 : Int) ≤ max := by
  induction config generalizing made scan with
  | nil =>
      refine iff_of_true (fun id hid => absurd hid List.not_mem_nil) fun pre p post heq => ?_
      exact absurd heq.symm (List.append_ne_nil_of_right_ne_nil _ (List.cons_ne_nil _ _))
  | cons cpus config ih =>
      have hltc := hlt cpus List.mem_cons_self
      have hltr := fun cpus' hin => hlt cpus' (List.mem_cons_of_mem _ hin)
      have hinsr := fun cpus' hin => hinside cpus' (List.mem_cons_of_mem _ hin)
      rw [passedByLists]
      by_cases hempty : cpus ∩ valid = ∅
      · rw [if_pos hempty, kept_cons_of_empty hempty]
        exact ih hltr hinsr h.skip
      · rw [if_neg hempty, kept_cons_of_ne hempty, List.forall_mem_cons]
        obtain ⟨c, hc⟩ := Finset.nonempty_iff_ne_empty.mpr hempty
        obtain ⟨hcc, hcv⟩ := Finset.mem_inter.mp hc
        have hsub : cpus ⊆ valid := (hinside cpus List.mem_cons_self).resolve_right
          fun hd => Finset.disjoint_left.mp hd hcc hcv
        have hadd := h.exists_addDomain_iff hp hk hltc
        constructor
        · rintro ⟨hid, hrest⟩ pre p post heq hapart
          cases pre with
          | nil =>
              obtain rfl := List.head_eq_of_cons_eq heq
              exact hid
          | cons q pre =>
              obtain ⟨rfl, htail⟩ := List.cons_eq_cons.mp heq
              have hcov : Apart t k (covered made) cpus := by
                intro c hc
                obtain ⟨r, hr, hcr⟩ := mem_covered.mp hc
                exact (List.pairwise_append.mp hapart).2.2 r hr _ List.mem_cons_self c hcr
              obtain ⟨scan₁, h₁⟩ := hadd.mpr ⟨hid, hsub, hcov⟩
              obtain ⟨hmakes, hnext⟩ := h.addDomain hp hk hltc ⟨c, hcc⟩ h₁
              rw [h₁] at hrest
              rw [← hnext] at htail
              refine (ih hltr hinsr hmakes).mp hrest pre p post htail ?_
              rwa [List.append_assoc, List.singleton_append]
        · intro hall
          have hid : (scan.systemId : Int) ≤ max := hall [] (cpus, scan.systemId) _ rfl (by
            rw [List.append_nil]
            exact h.apart)
          refine ⟨hid, ?_⟩
          split
          · exact fun id hin => absurd hin List.not_mem_nil
          case h_2 scan₁ h₁ =>
            obtain ⟨hmakes, hnext⟩ := h.addDomain hp hk hltc ⟨c, hcc⟩ h₁
            refine (ih hltr hinsr hmakes).mpr fun pre p post heq hapart => ?_
            rw [hnext] at heq
            refine hall ((cpus, scan.systemId) :: pre) p post (by rw [heq]; rfl) ?_
            rwa [List.append_assoc, List.singleton_append] at hapart

/-- Each remaining domain is reached. -/
theorem Makes.passedByRemaining_iff (hp : Prepared t valid k) (hk : k ≠ .cpu)
    (hbelow : below.rank = k.rank + 1) (hnd : is.Nodup) (his : ∀ i ∈ is, i < t.count below)
    (h : Makes t valid k max made scan) :
    (∀ id ∈ passedByRemaining k below scan is, (id : Int) ≤ max)
      ↔ ∀ p ∈ remainingMade t below (covered made) is scan.systemId, (p.2 : Int) ≤ max := by
  have hrank : k.rank < below.rank := by omega
  induction is generalizing made scan with
  | nil => exact iff_of_true (fun id hid => absurd hid List.not_mem_nil) fun p hp => absurd hp List.not_mem_nil
  | cons i is ih =>
      obtain ⟨hnew, hnd⟩ := List.nodup_cons.mp hnd
      have hi := his i List.mem_cons_self
      have hisr := fun l hl => his l (List.mem_cons_of_mem i hl)
      have hmask : (scan.tables.dom below i).cpuSidMask = (t.dom below i).cpuSidMask :=
        h.inv.only.sidMask below (ne_of_rank_lt hrank) i
      rw [passedByRemaining]
      by_cases hdisj : Disjoint (t.dom below i).cpuSidMask (covered made)
      · have hltc : ∀ c ∈ (t.dom below i).cpuSidMask, c < topoNrCpus := fun c hc =>
          hp.lt c (hp.mask_sub hbelow hi hc)
        have hne := (hp.lower below hrank).nonempty i hi
        rw [if_pos ((h.remaining_iff hp hk hbelow hi).mpr hdisj), hmask,
          remainingMade_cons hp hbelow hi hisr hnew hdisj, List.forall_mem_cons, List.forall_mem_cons]
        refine and_congr_right fun hid => ?_
        obtain ⟨scan₁, h₁⟩ := (h.exists_addDomain_iff hp hk hltc).mpr
          ⟨hid, hp.mask_sub hbelow hi, h.apart_remaining hp hbelow hi hdisj⟩
        obtain ⟨hmakes, hnext⟩ := h.addDomain hp hk hltc hne h₁
        rw [h₁, ← hnext]
        exact ih hnd hisr hmakes
      · have hmade : remainingMade t below (covered made) (i :: is) scan.systemId
            = remainingMade t below (covered made) is scan.systemId := by
          rw [remainingMade, remainingMade, remaining_cons_of_not hdisj]
        rw [if_neg (mt (h.remaining_iff hp hk hbelow hi).mp hdisj), hmade]
        exact ih hnd hisr h

/-! ## All ids -/

theorem cast_le_iff {n m : Nat} : (n : Int) ≤ (m : Int) - 1 ↔ n < m := by
  omega

/-- The ids of lists that each are inside or outside the binding, and of the
remaining domains, stay inside the map exactly when they fit. -/
theorem system_ids_inside (hreach : Reached valid t k below)
    (hlt : ∀ cpus ∈ config, ∀ c ∈ cpus, c < topoNrCpus)
    (hinside : ∀ cpus ∈ config, cpus ⊆ valid ∨ Disjoint cpus valid) :
    IdsInside t k below valid config createRemaining ↔ IdsFit t k below valid config createRemaining := by
  obtain ⟨hp, hk, hbelow⟩ := hreach.prepared
  have hmax : (t.configStart k below).tables.sMax k = (t.count below : Int) - 1 := initLevel_sMax_self
  have hstart : Makes t valid k (t.count below - 1) [] (t.configStart k below) := makes_start hp hk
  have hlists := hstart.passedByLists_iff hp hk hlt hinside
  obtain ⟨hiff, hmakes⟩ := hstart.configLoop hp hk hlt
  -- once the ids of the lists fit, the first loop ends if the lists are apart
  have hended : (∀ pre p post, kept valid config 0 = pre ++ p :: post →
      (pre.Pairwise fun p q => Apart t k p.1 q.1) → p.2 < t.count below) →
      ((∃ scan, config.foldlM (configStep k valid) (t.configStart k below) = some scan)
        ↔ (kept valid config 0).Pairwise fun p q => Apart t k p.1 q.1) := by
    intro hids
    rw [hiff]
    refine ⟨fun hadd => hadd.2, fun hapart => ⟨fun p hpin => ?_, hapart⟩⟩
    have hpin : p ∈ kept valid config 0 := hpin
    obtain ⟨pre, post, heq⟩ := List.append_of_mem hpin
    have hpre : pre.Pairwise fun p q => Apart t k p.1 q.1 := by
      rw [heq] at hapart
      exact (List.pairwise_append.mp hapart).1
    refine ⟨cast_le_iff.mpr (hids pre p post heq hpre), ?_⟩
    obtain ⟨hget, hmeets⟩ := mem_kept.mp hpin
    refine (hinside p.1 (List.mem_of_getElem? hget)).resolve_right fun hd => hmeets ?_
    exact Finset.disjoint_iff_inter_eq_empty.mp hd
  have hfirst : (∀ id ∈ passedByLists k valid (t.configStart k below) config, (id : Int) ≤ t.count below - 1)
      ↔ ∀ pre p post, kept valid config 0 = pre ++ p :: post →
        (pre.Pairwise fun p q => Apart t k p.1 q.1) → p.2 < t.count below := by
    rw [hlists]
    exact ⟨fun h pre p post heq hapart => cast_le_iff.mp (h pre p post heq hapart),
      fun h pre p post heq hapart => cast_le_iff.mpr (h pre p post heq hapart)⟩
  -- what the second loop passes, if it is reached
  have hsecond : ∀ scan, config.foldlM (configStep k valid) (t.configStart k below) = some scan →
      ((∀ id ∈ passedByRemaining k below scan (List.range (t.count below)), (id : Int) ≤ t.count below - 1)
        ↔ t.uncovered below valid config = []
          ∨ config.length + (t.uncovered below valid config).length ≤ t.count below) := by
    intro scan hscan
    obtain ⟨hmade, hid⟩ := hmakes scan hscan
    rw [List.nil_append] at hmade
    have hrest := hmade.passedByRemaining_iff hp hk hbelow List.nodup_range fun i hi => List.mem_range.mp hi
    rw [hid] at hrest
    change _ ↔ ∀ p ∈ remainingMade t below (covered (kept valid config 0)) _ (0 + config.length), _ at hrest
    rw [Nat.zero_add] at hrest
    rw [hrest, uncovered, ← remainingMade_ids]
    exact ⟨fun h p hpin => cast_le_iff.mp (h p hpin), fun h p hpin => cast_le_iff.mpr (h p hpin)⟩
  have hall : (∀ id ∈ t.passedIds k below valid config createRemaining, (id : Int) ≤ t.count below - 1)
      ↔ IdsFit t k below valid config createRemaining := by
    rw [passedIds, List.forall_mem_append, hfirst]
    constructor
    · rintro ⟨hids, hrest⟩
      refine ⟨hids, fun hrem hapart => ?_⟩
      obtain ⟨scan, hscan⟩ := (hended hids).mpr hapart
      rw [hscan] at hrest
      dsimp only at hrest
      rw [if_pos hrem] at hrest
      exact (hsecond scan hscan).mp hrest
    · intro hfit
      refine ⟨hfit.lists, ?_⟩
      split
      · exact fun id hid => absurd hid List.not_mem_nil
      case h_2 scan hscan =>
        split
        case isTrue hrem =>
          exact (hsecond scan hscan).mpr (hfit.remaining hrem ((hended hfit.lists).mp ⟨scan, hscan⟩))
        case isFalse => exact fun id hid => absurd hid List.not_mem_nil
  rw [← hall]
  constructor
  · intro h
    rw [← hmax]
    exact h.passed
  · intro h
    refine ⟨by rw [hmax]; exact h, fun t' ht' m hm => ?_⟩
    have hrank : k.rank < below.rank := by omega
    have hstage := topologyInitFromConfig_stage hp.cpus hp.lt hrank hk (hp.lower below hrank) (hp.fresh hk) ht'
    exact hstage.built.ids.toSystem m hm

/-- Three CPUs on two cores, and a list for one of them -/
theorem system_ids_inside_three :
    ∃ t, Reached {1, 2, 4} t .complexSet .core
      ∧ (IdsInside t .complexSet .core {1, 2, 4} [{4}, {7}] true
        ↔ IdsFit t .complexSet .core {1, 2, 4} [{4}, {7}] true) := by
  obtain ⟨t, ht⟩ := exists_reached_cores
    (by decide : ∀ c ∈ ({1, 2, 4} : Finset Nat), c < topoNrCpus)
    (by decide : ∀ c ∈ ({1, 2, 4} : Finset Nat), c ∈ if c = 4 then ({4} : Finset Nat) else {1, 2})
    (by decide +kernel)
  exact ⟨t, ht, system_ids_inside ht (by decide) (by decide)⟩

/-- A process bound to CPU 4, whose list is the second one: the map has one
entry, and the id is 1. -/
theorem system_id_outside :
    ∃ t, Reached {4} t .complexSet .core
      ∧ (t.configStart .complexSet .core).tables.sMax .complexSet = 0
      ∧ 1 ∈ t.passedIds .complexSet .core {4} [{0}, {4}] true := by
  have hcount : (((someMemory.topologyInitCpus {4}).bind fun t => t.topologyInitCores {4} fun c => {c}).map
      fun t => t.count .core) = some 1 := by decide +kernel
  obtain ⟨t, ht, hone⟩ := Option.map_eq_some_iff.mp hcount
  obtain ⟨t₁, h₁, h₂⟩ := Option.bind_eq_some_iff.mp ht
  have hreach : Reached {4} t .complexSet .core :=
    .cores (by decide) (fun c _ => Finset.mem_singleton_self c) h₁ h₂
  refine ⟨t, hreach, ?_, ?_⟩
  · rw [configStart, initLevel_sMax_self, hone]
    rfl
  · refine List.mem_append_left _ ?_
    rw [passedByLists, if_pos (by decide), passedByLists, if_neg (by decide)]
    exact List.mem_cons_self

end TopoTables

end Nosv
