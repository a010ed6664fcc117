import Nosv.Lib.CString
import Mathlib.Data.Finset.Card

/-!
# The default affinity of a process

`topo_get_default_aff` turns the affinity mask of the process into the name
of a CPU or of a NUMA node, if there is one that stands for it. What
`libnuma` reports is a `NumaReport`; `numa_node_of_cpu` gives a node for
every possible CPU.
-/

namespace Nosv

open CString

/-- What `libnuma` says about the machine and the process -/
structure NumaReport where
  /-- `numa_num_possible_cpus` -/
  maxCpus : Nat
  /-- `numa_sched_getaffinity` -/
  allAffinity : Finset Nat
  /-- `numa_node_of_cpu` -/
  nodeOfCpu : Nat → Nat
  possible : ∀ cpu ∈ allAffinity, cpu < maxCpus
  nonempty : allAffinity.Nonempty

/-- Return value 0 with the text, 1, or a failed assertion -/
inductive DefaultAff where
  | found (out : List Char)
  | undetermined
  | failed
  deriving DecidableEq

namespace NumaReport

def cpuName (cpu : Nat) : List Char := "cpu-".toList ++ Nat.toDigits 10 cpu

def numaName (node : Nat) : List Char := "numa-".toList ++ Nat.toDigits 10 node

variable (r : NumaReport)

/-- The value of `i` after the first loop -/
def firstCpu : Nat := ((List.range (r.maxCpus - 1)).find? (· ∈ r.allAffinity)).getD (r.maxCpus - 1)

/-- The second loop: `selected_node` at its end, `none` for `return 1` -/
def selectNode : List Nat → Int → Option Int
  | [], selectedNode => some selectedNode
  | i :: is, selectedNode =>
      if i ∈ r.allAffinity then
        let selectedNode := if selectedNode < 0 then (r.nodeOfCpu i : Int) else selectedNode
        if selectedNode ≠ r.nodeOfCpu i then none else selectNode is selectedNode
      else selectNode is selectedNode

/-- `topo_get_default_aff` -/
def topoGetDefaultAff : DefaultAff :=
  if r.allAffinity.card = 1 then
    if r.firstCpu ∈ r.allAffinity then .found (cpuName r.firstCpu) else .failed
  else
    match r.selectNode (List.range (r.maxCpus - 1)) (-1) with
    | none => .undetermined
    | some selectedNode =>
        if 0 ≤ selectedNode then .found (numaName selectedNode.toNat) else .failed

/-- All CPUs of the mask are on the node. -/
def OnNode (k : Nat) : Prop := ∀ cpu ∈ r.allAffinity, r.nodeOfCpu cpu = k

/-- The result names a CPU or a node exactly if it stands for the mask. -/
structure Names (res : DefaultAff) : Prop where
  cpu : ∀ i, res = .found (cpuName i) ↔ r.allAffinity = {i}
  numa : ∀ k, res = .found (numaName k) ↔ 2 ≤ r.allAffinity.card ∧ r.OnNode k
  undetermined : res = .undetermined ↔ 2 ≤ r.allAffinity.card ∧ ∀ k, ¬ r.OnNode k
  asserted : res ≠ .failed

/-- Only the last possible CPU is on another node than the others. -/
def LastApart : Prop :=
  2 ≤ r.allAffinity.card ∧ r.maxCpus - 1 ∈ r.allAffinity
    ∧ ∃ k, (∀ cpu ∈ r.allAffinity, cpu ≠ r.maxCpus - 1 → r.nodeOfCpu cpu = k)
      ∧ r.nodeOfCpu (r.maxCpus - 1) ≠ k

variable {r : NumaReport} {l : List Nat} {i k : Nat} {res : Int}

theorem cpuName_injective : Function.Injective cpuName := fun i k h => by
  rw [← digitsValue_toDigits i, ← digitsValue_toDigits k, List.append_cancel_left h]

theorem numaName_injective : Function.Injective numaName := fun i k h => by
  rw [← digitsValue_toDigits i, ← digitsValue_toDigits k, List.append_cancel_left h]

theorem cpuName_ne_numaName : cpuName i ≠ numaName k := by
  intro h
  cases List.head_eq_of_cons_eq h

/-! ## The loops -/

theorem firstCpu_of_singleton (h : r.allAffinity = {i}) : r.firstCpu = i := by
  have hlt := r.possible i (by rw [h]; exact Finset.mem_singleton_self i)
  unfold firstCpu
  cases hfind : (List.range (r.maxCpus - 1)).find? (· ∈ r.allAffinity) with
  | none =>
      have hnot := List.find?_eq_none.mp hfind i
      rw [List.mem_range, h] at hnot
      have hlast : ¬ i < r.maxCpus - 1 := fun hi => hnot hi (by simp)
      change r.maxCpus - 1 = i
      omega
  | some j =>
      have hj := List.find?_some hfind
      rw [decide_eq_true_eq, h, Finset.mem_singleton] at hj
      exact hj

/-- With a node selected, the loop looks for another one. -/
theorem selectNode_selected :
    r.selectNode l k = some res ↔ res = k ∧ ∀ cpu ∈ l, cpu ∈ r.allAffinity → r.nodeOfCpu cpu = k := by
  have hk : ¬ (k : Int) < 0 := by omega
  induction l with
  | nil => simp [selectNode, eq_comm]
  | cons i l ih =>
      rw [selectNode, List.forall_mem_cons]
      by_cases hi : i ∈ r.allAffinity
      · rw [if_pos hi]
        dsimp only
        rw [if_neg hk]
        by_cases hnode : r.nodeOfCpu i = k
        · rw [if_neg (not_not_intro (by rw [hnode]))]
          exact ih.trans (and_congr_right fun _ => (and_iff_right fun _ => hnode).symm)
        · have hne : (k : Int) ≠ r.nodeOfCpu i := fun h => hnode (Int.ofNat_inj.mp h).symm
          rw [if_pos hne]
          exact iff_of_false (fun h => nomatch h) fun h => hnode (h.2.1 hi)
      · rw [if_neg hi]
        exact ih.trans (and_congr_right fun _ => (and_iff_right fun h => absurd h hi).symm)

/-- The loop ends with a node if it visits a CPU, and all that it visits are
on that node. -/
theorem selectNode_start (h : ∃ cpu ∈ l, cpu ∈ r.allAffinity) :
    r.selectNode l (-1) = some res
      ↔ ∃ k : Nat, res = k ∧ ∀ cpu ∈ l, cpu ∈ r.allAffinity → r.nodeOfCpu cpu = k := by
  induction l with
  | nil => exact absurd h fun ⟨_, hnil, _⟩ => List.not_mem_nil hnil
  | cons i l ih =>
      rw [selectNode]
      by_cases hi : i ∈ r.allAffinity
      · rw [if_pos hi]
        dsimp only
        rw [if_pos (by decide : (-1 : Int) < 0), if_neg (not_not_intro rfl), selectNode_selected]
        constructor
        · rintro ⟨hres, hall⟩
          exact ⟨_, hres, List.forall_mem_cons.mpr ⟨fun _ => rfl, hall⟩⟩
        · rintro ⟨k, hres, hall⟩
          obtain ⟨hfirst, hall⟩ := List.forall_mem_cons.mp hall
          rw [hfirst hi]
          exact ⟨hres, hall⟩
      · rw [List.exists_mem_cons_iff] at h
        rw [if_neg hi, ih (h.resolve_left hi)]
        refine exists_congr fun k => and_congr_right fun _ => ?_
        rw [List.forall_mem_cons]
        exact (and_iff_right fun h => absurd h hi).symm

/-! ## The result -/

theorem topoGetDefaultAff_singleton (h : r.allAffinity = {i}) :
    r.topoGetDefaultAff = .found (cpuName i) := by
  have hmem : i ∈ r.allAffinity := by rw [h]; exact Finset.mem_singleton_self i
  rw [topoGetDefaultAff, if_pos (by rw [h]; exact Finset.card_singleton i), firstCpu_of_singleton h,
    if_pos hmem]

/-- A mask of two CPUs has one that the loop visits. -/
theorem exists_visited (h : 2 ≤ r.allAffinity.card) :
    ∃ cpu ∈ List.range (r.maxCpus - 1), cpu ∈ r.allAffinity := by
  obtain ⟨cpu, hcpu, hne⟩ := Finset.exists_mem_ne h (r.maxCpus - 1)
  have := r.possible cpu hcpu
  exact ⟨cpu, List.mem_range.mpr (by omega), hcpu⟩

/-- All but the last possible CPU are on the node. -/
def VisitedOnNode (r : NumaReport) (k : Nat) : Prop :=
  ∀ cpu ∈ List.range (r.maxCpus - 1), cpu ∈ r.allAffinity → r.nodeOfCpu cpu = k

theorem topoGetDefaultAff_node (h : 2 ≤ r.allAffinity.card) (hk : r.VisitedOnNode k) :
    r.topoGetDefaultAff = .found (numaName k) := by
  have hsel : r.selectNode (List.range (r.maxCpus - 1)) (-1) = some (k : Int) :=
    (selectNode_start (exists_visited h)).mpr ⟨k, rfl, hk⟩
  rw [topoGetDefaultAff, if_neg (by omega), hsel]
  dsimp only
  rw [if_pos (Int.natCast_nonneg k), Int.toNat_natCast]

theorem topoGetDefaultAff_undetermined (h : 2 ≤ r.allAffinity.card) (hk : ∀ k, ¬ r.VisitedOnNode k) :
    r.topoGetDefaultAff = .undetermined := by
  rw [topoGetDefaultAff, if_neg (by omega)]
  cases hsel : r.selectNode (List.range (r.maxCpus - 1)) (-1) with
  | none => rfl
  | some res =>
      obtain ⟨k, -, hall⟩ := (selectNode_start (exists_visited h)).mp hsel
      exact absurd hall (hk k)

theorem OnNode.visited (h : r.OnNode k) : r.VisitedOnNode k := fun cpu _ hcpu => h cpu hcpu

theorem VisitedOnNode.unique (h : 2 ≤ r.allAffinity.card) (hk : r.VisitedOnNode k) (hi : r.VisitedOnNode i) :
    k = i := by
  obtain ⟨cpu, hrange, hcpu⟩ := exists_visited h
  rw [← hk cpu hrange hcpu, ← hi cpu hrange hcpu]

/-- Unless the last possible CPU is the only one apart, what the loop sees
of a mask is true of all of it. -/
theorem onNode_of_visited (hlast : ¬ r.LastApart) (h : 2 ≤ r.allAffinity.card) (hk : r.VisitedOnNode k) :
    r.OnNode k := by
  have hothers : ∀ cpu ∈ r.allAffinity, cpu ≠ r.maxCpus - 1 → r.nodeOfCpu cpu = k := fun cpu hcpu hne =>
    hk cpu (List.mem_range.mpr (by have := r.possible cpu hcpu; omega)) hcpu
  intro cpu hcpu
  by_cases heq : cpu = r.maxCpus - 1
  · subst heq
    by_contra hne
    exact hlast ⟨h, hcpu, k, hothers, hne⟩
  · exact hothers cpu hcpu heq

theorem names_singleton (h : r.allAffinity = {i}) : r.Names (.found (cpuName i)) := by
  have hcard : ¬ 2 ≤ r.allAffinity.card := by
    rw [h, Finset.card_singleton]
    decide
  refine ⟨fun j => ?_, fun k => ?_, ?_, fun hfail => nomatch hfail⟩
  · rw [h, DefaultAff.found.injEq, cpuName_injective.eq_iff, Finset.singleton_inj]
  · rw [DefaultAff.found.injEq]
    exact iff_of_false cpuName_ne_numaName fun hnode => hcard hnode.1
  · exact iff_of_false (fun heq => nomatch heq) fun hnode => hcard hnode.1

theorem ne_singleton (h : 2 ≤ r.allAffinity.card) (i : Nat) : r.allAffinity ≠ {i} := by
  intro heq
  rw [heq, Finset.card_singleton] at h
  exact absurd h (by decide)

theorem names_node (h : 2 ≤ r.allAffinity.card) (hk : r.OnNode k) : r.Names (.found (numaName k)) := by
  refine ⟨fun i => ?_, fun j => ?_, ?_, fun hfail => nomatch hfail⟩
  · rw [DefaultAff.found.injEq]
    exact iff_of_false (fun heq => cpuName_ne_numaName heq.symm) (ne_singleton h i)
  · rw [DefaultAff.found.injEq, numaName_injective.eq_iff]
    constructor
    · rintro rfl
      exact ⟨h, hk⟩
    · exact fun hj => hk.visited.unique h hj.2.visited
  · exact iff_of_false (fun heq => nomatch heq) fun hnone => hnone.2 k hk

theorem names_undetermined (h : 2 ≤ r.allAffinity.card) (hk : ∀ k, ¬ r.OnNode k) :
    r.Names .undetermined := by
  refine ⟨fun i => ?_, fun k => ?_, iff_of_true rfl ⟨h, hk⟩, fun hfail => nomatch hfail⟩
  · exact iff_of_false (fun heq => nomatch heq) (ne_singleton h i)
  · exact iff_of_false (fun heq => nomatch heq) fun hnode => hk k hnode.2

/-- The default affinity stands for the mask, unless only the last possible
CPU, which the second loop leaves out, is on another node. -/
theorem default_affinity_names (r : NumaReport) : r.Names r.topoGetDefaultAff ↔ ¬ r.LastApart := by
  constructor
  · rintro hnames ⟨h, hlast, k, hothers, hne⟩
    have hvisited : r.VisitedOnNode k := fun cpu hrange hcpu =>
      hothers cpu hcpu (Nat.ne_of_lt (List.mem_range.mp hrange))
    exact hne (((hnames.numa k).mp (topoGetDefaultAff_node h hvisited)).2 _ hlast)
  · intro hlast
    by_cases h : 2 ≤ r.allAffinity.card
    · by_cases hk : ∃ k, r.VisitedOnNode k
      · obtain ⟨k, hk⟩ := hk
        rw [topoGetDefaultAff_node h hk]
        exact names_node h (onNode_of_visited hlast h hk)
      · rw [topoGetDefaultAff_undetermined h (not_exists.mp hk)]
        exact names_undetermined h fun k hon => hk ⟨k, hon.visited⟩
    · have hpos := r.nonempty.card_pos
      obtain ⟨i, hi⟩ := Finset.card_eq_one.mp (by omega : r.allAffinity.card = 1)
      rw [topoGetDefaultAff_singleton hi]
      exact names_singleton hi

/-- Two CPUs on two nodes -/
def twoNodes : NumaReport where
  maxCpus := 2
  allAffinity := {0, 1}
  nodeOfCpu := id
  possible := by decide
  nonempty := Finset.insert_nonempty _ _

/-- The affinity is `numa-0`, though CPU 1 is on node 1. -/
theorem default_affinity_wrong_node :
    twoNodes.topoGetDefaultAff = .found "numa-0".toList ∧ ¬ twoNodes.Names twoNodes.topoGetDefaultAff := by
  have hres : twoNodes.topoGetDefaultAff = .found (numaName 0) := by decide
  refine ⟨by decide, fun hnames => ?_⟩
  exact absurd (((hnames.numa 0).mp hres).2 1 (by decide)) (by decide)

end NumaReport

end Nosv
