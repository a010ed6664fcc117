import Mathlib.Algebra.Order.Ring.Int
import Mathlib.Tactic.Common

/-!
# Topology identifiers

The part of `topology_t` that the scheduler reads: at each level the
domains have consecutive *logical* ids, each with a *system* id, and
`s_to_l` maps the system ids back (`-1` for an id that is not there).
The fields after the data say what `topo_init` establishes: logical ids
follow the order of the system ids, `s_to_l` is the inverse of
`system_id`, every CPU lies in a NUMA domain and no NUMA domain is empty.
-/

namespace Nosv

/-- `nosv_topo_level_t` -/
inductive TopoLevel where
  | node
  | numa
  | complexSet
  | core
  | cpu
  deriving DecidableEq, Repr

structure Topology where
  /-- `per_level_count` -/
  count : TopoLevel → Nat
  /-- `per_level_domains[level][lid].system_id` -/
  systemId : TopoLevel → Nat → Nat
  sToL : TopoLevel → Nat → Int
  /-- `per_level_domains[TOPO_CPU][lid].parents[TOPO_NUMA]` -/
  logicalNuma : Nat → Nat
  systemId_lt : ∀ lvl i j, i < j → j < count lvl → systemId lvl i < systemId lvl j
  sToL_systemId : ∀ lvl i, i < count lvl → sToL lvl (systemId lvl i) = i
  sToL_absent : ∀ lvl s, (∀ i, i < count lvl → systemId lvl i ≠ s) → sToL lvl s = -1
  logicalNuma_lt : ∀ c, c < count .cpu → logicalNuma c < count .numa
  numa_nonempty : ∀ n, n < count .numa → ∃ c, c < count .cpu ∧ logicalNuma c = n

namespace Topology

variable (topo : Topology)

/-- `topo_dom_lid` -/
def topoDomLid (lvl : TopoLevel) (sid : Nat) : Int := topo.sToL lvl sid

/-- `topo_dom_sid` -/
def topoDomSid (lvl : TopoLevel) (lid : Nat) : Nat := topo.systemId lvl lid

/-- `topo_lvl_cnt` -/
def topoLvlCnt (lvl : TopoLevel) : Nat := topo.count lvl

/-- `cpu_sid`; a `cpu_t` is given by its logical id. -/
def cpuSid (cpu : Nat) : Nat := topo.systemId .cpu cpu

/-- `cpu_parent_lid` for the NUMA level -/
def cpuParentNuma (cpu : Nat) : Nat := topo.logicalNuma cpu

/-- `sid` is the system id of some domain of the level. -/
def Exists (lvl : TopoLevel) (sid : Nat) : Prop :=
  ∃ i, i < topo.count lvl ∧ topo.systemId lvl i = sid

instance (lvl : TopoLevel) (sid : Nat) : Decidable (topo.Exists lvl sid) :=
  inferInstanceAs (Decidable (∃ i, i < topo.count lvl ∧ topo.systemId lvl i = sid))

/-- A machine with one CPU in one NUMA domain. -/
def oneCpu : Topology where
  count := fun _ => 1
  systemId := fun _ i => i
  sToL := fun _ sid => if sid = 0 then 0 else -1
  logicalNuma := fun _ => 0
  systemId_lt := fun _ _ _ h _ => h
  sToL_systemId := fun _ i hi => by simp [Nat.lt_one_iff.mp hi]
  sToL_absent := fun _ sid h => by
    have hne : sid ≠ 0 := (h 0 (by decide)).symm
    simp [hne]
  logicalNuma_lt := fun _ _ => by decide
  numa_nonempty := fun n hn => ⟨0, by decide, (Nat.lt_one_iff.mp hn).symm⟩

/-- Two CPUs, each in a NUMA domain of its own; the system ids of the
domains start at `first`. -/
def twoNodes (first : Nat) : Topology where
  count := fun lvl => if lvl = .cpu ∨ lvl = .numa then 2 else 1
  systemId := fun lvl i => if lvl = .numa then first + i else i
  sToL := fun lvl sid =>
    let base := if lvl = .numa then first else 0
    let count := if lvl = .cpu ∨ lvl = .numa then 2 else 1
    if base ≤ sid ∧ sid < base + count then (sid - base : Int) else -1
  logicalNuma := fun c => c
  systemId_lt := fun lvl i j h _ => by
    split <;> omega
  sToL_systemId := fun lvl i hi => by
    cases lvl <;> simp at hi ⊢ <;> omega
  sToL_absent := fun lvl sid h => by
    refine if_neg fun hin => ?_
    cases lvl with
    | numa => exact h (sid - first) (by simp at hin ⊢; omega) (by simp at hin ⊢; omega)
    | node | complexSet | core | cpu => exact h sid (by simpa using hin) rfl
  logicalNuma_lt := fun c hc => hc
  numa_nonempty := fun n hn => ⟨n, hn, rfl⟩

variable {topo}

theorem systemId_inj {lvl : TopoLevel} {i j : Nat} (hi : i < topo.count lvl)
    (hj : j < topo.count lvl) (h : topo.systemId lvl i = topo.systemId lvl j) :
    i = j := by
  rcases Nat.lt_trichotomy i j with hlt | heq | hgt
  · have := topo.systemId_lt lvl i j hlt hj
    omega
  · exact heq
  · have := topo.systemId_lt lvl j i hgt hi
    omega

theorem topoDomLid_of_exists {lvl : TopoLevel} {sid : Nat} (h : topo.Exists lvl sid) :
    ∃ i, i < topo.count lvl ∧ topo.systemId lvl i = sid ∧ topo.topoDomLid lvl sid = i := by
  obtain ⟨i, hi, rfl⟩ := h
  exact ⟨i, hi, rfl, topo.sToL_systemId lvl i hi⟩

end Topology

end Nosv
