import Mathlib.Data.Finset.Card
import Mathlib.Data.Finset.Lattice.Lemmas
import Mathlib.Data.Finset.Insert
import Mathlib.Data.Finset.Image
import Nosv.Topology

/-!
# Setting the topology up

`topo_init`: the domains of the machine at the levels node, NUMA node,
complex set, core and CPU, each level built on those below it. A domain has
a logical id, which is its index in the array of its level, a system id,
two masks of its CPUs, and the logical ids of its parents.

A function gives `none` where the source aborts or an assertion fails, and
where it would leave the array of a level: a system id above `s_max`, a
negative index. The tables are in memory from `salloc`, which may hold
anything at first.
-/

namespace Nosv

/-- `NR_CPUS` -/
def topoNrCpus : Nat := 256

def topoIdDisabled : Int := -1

def topoIdUnset : Int := -2

/-- The number of a level. -/
def TopoLevel.rank : TopoLevel → Nat
  | .node => 0
  | .numa => 1
  | .complexSet => 2
  | .core => 3
  | .cpu => 4

/-- `topo_domain_t` -/
structure TopoDomain where
  parents : TopoLevel → Int
  systemId : Nat
  cpuSidMask : Finset Nat
  cpuLidMask : Finset Nat

/-- `topology_t` -/
structure TopoTables where
  validDomains : TopoLevel → Finset Nat
  count : TopoLevel → Nat
  sMax : TopoLevel → Int
  sToL : TopoLevel → Nat → Int
  dom : TopoLevel → Nat → TopoDomain

/-- Where the NUMA nodes come from: the configuration, or libnuma with the
nodes of `numa_all_nodes_ptr`, `numa_max_node` and `numa_node_of_cpu`. -/
inductive NumaSource where
  | config (sets : List (Finset Nat))
  | libnuma (nodes : Finset Nat) (numaMax : Int) (nodeOf : Nat → Option Nat)

/-- What `topo_init` finds: the CPUs of the binding mask, the lists of
thread siblings, and the sets of CPUs of the configuration. -/
structure TopoDescription where
  validCpus : Finset Nat
  siblings : Nat → Finset Nat
  complexSets : List (Finset Nat)
  numa : NumaSource
  validCpus_nonempty : validCpus.Nonempty
  validCpus_lt : ∀ c ∈ validCpus, c < topoNrCpus

/-- The order of `CPU_BITSET_FOREACH` -/
def forEachCpu (cpus : Finset Nat) : List Nat := (List.range topoNrCpus).filter (· ∈ cpus)

namespace TopoTables

/-- `topo_dom_lid` of a CPU, where it is an index -/
def cpuLid (t : TopoTables) (c : Nat) : Nat := (t.sToL .cpu c).toNat

def setDom (t : TopoTables) (level : TopoLevel) (lid : Nat) (d : TopoDomain) : TopoTables :=
  { t with dom := Function.update t.dom level (Function.update (t.dom level) lid d) }

/-- `topology_domain_set_parent` -/
def domainSetParent (t : TopoTables) (level : TopoLevel) (lid : Nat) (parentLvl : TopoLevel)
    (parentLogical : Int) : TopoTables :=
  t.setDom level lid { t.dom level lid with
    parents := Function.update (t.dom level lid).parents parentLvl parentLogical }

/-- `topology_init_level`, with `topology_init_domain_s_to_l` -/
def initLevel (t : TopoTables) (level : TopoLevel) (max : Int) (cnt : Nat) : TopoTables :=
  { t with
    sMax := Function.update t.sMax level max
    sToL := Function.update t.sToL level fun _ => -1
    count := Function.update t.count level cnt }

/-- `topology_truncate_level` -/
def truncateLevel (t : TopoTables) (level : TopoLevel) (finalcnt : Nat) : TopoTables :=
  { t with count := Function.update t.count level finalcnt }

def clearValid (t : TopoTables) (level : TopoLevel) : TopoTables :=
  { t with validDomains := Function.update t.validDomains level ∅ }

/-- The domain that `topology_init_domain` makes. -/
def newDomain (level : TopoLevel) (systemId lid : Nat) : TopoDomain where
  parents k :=
    if k = level then lid
    else if k.rank < level.rank then topoIdUnset
    else topoIdDisabled
  systemId := systemId
  cpuSidMask := if level = .cpu then {systemId} else ∅
  cpuLidMask := if level = .cpu then {lid} else ∅

/-- `topology_init_domain` -/
def initDomain (t : TopoTables) (level : TopoLevel) (systemId lid : Nat) : Option TopoTables :=
  if t.sMax level < systemId ∨ t.sMax level < lid then none
  else
    some { t.setDom level lid (newDomain level systemId lid) with
      validDomains := Function.update t.validDomains level (insert systemId (t.validDomains level))
      sToL := Function.update t.sToL level (Function.update (t.sToL level) systemId lid) }

/-- The body of the loop of `topology_update_cpu_and_parents` -/
def updateLevel (parentLevel : TopoLevel) (parentLogical cpu : Nat) (t : TopoTables)
    (curr : TopoLevel) : Option TopoTables :=
  let currLid := (t.dom .cpu cpu).parents curr
  if currLid < 0 then none
  else
    let prev := (t.dom curr currLid.toNat).parents parentLevel
    if prev ≠ topoIdUnset ∧ prev ≠ parentLogical then none
    else some (t.domainSetParent curr currLid.toNat parentLevel parentLogical)

/-- The levels below a level, from the CPUs on -/
def levelsBelow (level : TopoLevel) : List TopoLevel :=
  [.cpu, .core, .complexSet, .numa].filter fun k => level.rank < k.rank

/-- `topology_update_cpu_and_parents` -/
def updateCpuAndParents (parentLevel : TopoLevel) (parentLogical : Nat) (t : TopoTables) (c : Nat) :
    Option TopoTables :=
  if t.sMax .cpu < c ∨ t.sToL .cpu c < 0 then none
  else
    let cpu := t.cpuLid c
    let d := t.dom parentLevel parentLogical
    (levelsBelow parentLevel).foldlM (updateLevel parentLevel parentLogical cpu)
      (t.setDom parentLevel parentLogical { d with
        cpuSidMask := insert c d.cpuSidMask
        cpuLidMask := insert cpu d.cpuLidMask })

/-- The loop over the CPUs of a domain -/
def updateCpus (t : TopoTables) (level : TopoLevel) (lid : Nat) (cpus : Finset Nat) : Option TopoTables :=
  (forEachCpu cpus).foldlM (updateCpuAndParents level lid) t

/-! ## CPUs and cores -/

/-- The loop of `topology_init_cpus`, with the logical id of the next CPU -/
def initCpus : TopoTables → Nat → List Nat → Option TopoTables
  | t, _, [] => some t
  | t, cpuLogical, c :: cpus => do
      let t ← t.initDomain .cpu c cpuLogical
      initCpus t (cpuLogical + 1) cpus

def topologyInitCpus (t : TopoTables) (validCpus : Finset Nat) : Option TopoTables :=
  let cnt := (forEachCpu validCpus).length
  initCpus { t.initLevel .cpu topoNrCpus cnt with
    validDomains := Function.update t.validDomains .cpu validCpus } 0 (forEachCpu validCpus)

/-- The variables of the loop of `topology_init_cores` -/
structure CoreScan where
  tables : TopoTables
  coreLogical : Nat
  visited : Finset Nat

/-- The body of the loop; the system id of a core is its first CPU. -/
def coreStep (validCpus : Finset Nat) (siblings : Nat → Finset Nat) (scan : CoreScan) (c : Nat) :
    Option CoreScan :=
  if c ∈ scan.visited then some scan
  else do
    let coreCpus := siblings c ∩ validCpus
    let coreSystem ← (forEachCpu coreCpus).head?
    let t ← scan.tables.initDomain .core coreSystem scan.coreLogical
    let t ← t.updateCpus .core scan.coreLogical coreCpus
    return ⟨t, scan.coreLogical + 1, scan.visited ∪ coreCpus⟩

def topologyInitCores (t : TopoTables) (validCpus : Finset Nat) (siblings : Nat → Finset Nat) :
    Option TopoTables := do
  let start := (t.clearValid .core).initLevel .core topoNrCpus topoNrCpus
  let scan ← (forEachCpu validCpus).foldlM (coreStep validCpus siblings) ⟨start, 0, ∅⟩
  if scan.coreLogical ≠ (scan.tables.validDomains .core).card then none
  else some (scan.tables.truncateLevel .core (scan.tables.validDomains .core).card)

/-! ## Levels from the configuration -/

/-- The variables of `topology_init_from_config` -/
structure ConfigScan where
  tables : TopoTables
  systemId : Nat
  logicalId : Nat
  visitedCpus : Nat

/-- A domain with the given CPUs -/
def addDomain (level : TopoLevel) (scan : ConfigScan) (cpus : Finset Nat) : Option ConfigScan := do
  let t ← scan.tables.initDomain level scan.systemId scan.logicalId
  let t ← t.updateCpus level scan.logicalId cpus
  return ⟨t, scan.systemId + 1, scan.logicalId + 1, scan.visitedCpus + (forEachCpu cpus).length⟩

/-- The first loop; sets without valid CPUs are ignored. -/
def configStep (level : TopoLevel) (validCpus : Finset Nat) (scan : ConfigScan) (cpus : Finset Nat) :
    Option ConfigScan :=
  if cpus ∩ validCpus = ∅ then some { scan with systemId := scan.systemId + 1 }
  else addDomain level scan cpus

/-- The second loop: a domain of the level below that is in none -/
def remainingStep (level below : TopoLevel) (scan : ConfigScan) (i : Nat) : Option ConfigScan :=
  if (scan.tables.dom below i).parents level = topoIdUnset then
    addDomain level scan (scan.tables.dom below i).cpuSidMask
  else some scan

def topologyInitFromConfig (t : TopoTables) (level below : TopoLevel) (validCpus : Finset Nat)
    (config : List (Finset Nat)) (createRemaining : Bool) : Option TopoTables := do
  let prevLevelCount := t.count below
  let start := t.initLevel level (prevLevelCount - 1) prevLevelCount
  let scan ← config.foldlM (configStep level validCpus) ⟨start, 0, 0, 0⟩
  let remaining := if createRemaining then List.range prevLevelCount else []
  let scan ← remaining.foldlM (remainingStep level below) scan
  if scan.visitedCpus ≠ scan.tables.count .cpu then none
  else some (scan.tables.truncateLevel level scan.logicalId)

/-! ## NUMA nodes and the node -/

/-- The variables of the first loop of `topology_init_numa_from_libnuma` -/
structure NumaScan where
  tables : TopoTables
  logicalId : Nat
  invalidNumas : Nat

/-- The body of the loop. `numa_node_to_cpus` has the CPUs that
`numa_node_of_cpu` maps to the node. -/
def numaStep (validCpus nodes : Finset Nat) (nodeOf : Nat → Option Nat) (scan : NumaScan) (i : Nat) :
    Option NumaScan :=
  if i ∈ nodes then
    if ∃ c ∈ validCpus, nodeOf c = some i then do
      let t ← scan.tables.initDomain .numa i scan.logicalId
      return { scan with tables := t, logicalId := scan.logicalId + 1 }
    else some { scan with invalidNumas := scan.invalidNumas + 1 }
  else some scan

/-- The body of the loop over the CPUs -/
def numaCpuStep (nodeOf : Nat → Option Nat) (t : TopoTables) (c : Nat) : Option TopoTables := do
  let numaSystem ← nodeOf c
  let numaLogical := t.sToL .numa numaSystem
  if t.sMax .numa < numaSystem ∨ numaLogical < 0 ∨ (t.count .numa : Int) ≤ numaLogical then none
  else t.updateCpuAndParents .numa numaLogical.toNat c

def topologyInitNumaFromLibnuma (t : TopoTables) (validCpus nodes : Finset Nat) (numaMax : Int)
    (nodeOf : Nat → Option Nat) : Option TopoTables := do
  if numaMax < 0 then none
  else
    let start := (t.clearValid .numa).initLevel .numa numaMax (t.count .numa)
    let scan ← (List.range (numaMax.toNat + 1)).foldlM (numaStep validCpus nodes nodeOf) ⟨start, 0, 0⟩
    let t ← (forEachCpu validCpus).foldlM (numaCpuStep nodeOf)
      (scan.tables.truncateLevel .numa scan.logicalId)
    if (t.validDomains .numa).card + scan.invalidNumas ≠ nodes.card then none
    else some t

def topologyInitNuma (t : TopoTables) (validCpus : Finset Nat) : NumaSource → Option TopoTables
  | .config sets => t.topologyInitFromConfig .numa .complexSet validCpus sets false
  | .libnuma nodes numaMax nodeOf => t.topologyInitNumaFromLibnuma validCpus nodes numaMax nodeOf

def topologyInitNode (t : TopoTables) (validCpus : Finset Nat) : Option TopoTables := do
  let t ← (((t.initLevel .node 0 1).truncateLevel .node 1).clearValid .node).initDomain .node 0 0
  t.updateCpus .node 0 validCpus

/-! ## The whole -/

/-- `topology_assert_parents_set` -/
def ParentsSet (t : TopoTables) : Prop :=
  ∀ child ∈ levelsBelow .node, ∀ parent ∈ [TopoLevel.node, .numa, .complexSet, .core],
    parent.rank < child.rank → ∀ i ∈ List.range (t.count child), 0 ≤ (t.dom child i).parents parent

instance (t : TopoTables) : Decidable t.ParentsSet := by
  unfold ParentsSet
  infer_instance

/-- `topology_assert_siblings_have_same_parent` -/
def SiblingsHaveSameParent (t : TopoTables) : Prop :=
  ∀ level ∈ [TopoLevel.core, .complexSet, .numa], ∀ parent ∈ [TopoLevel.complexSet, .numa],
    parent.rank < level.rank → ∀ i ∈ List.range (t.count level),
    ∀ l ∈ (t.dom level i).cpuLidMask, ∀ l' ∈ (t.dom level i).cpuLidMask,
      0 ≤ (t.dom .cpu l).parents parent ∧ (t.dom .cpu l).parents parent = (t.dom .cpu l').parents parent

instance (t : TopoTables) : Decidable t.SiblingsHaveSameParent := by
  unfold SiblingsHaveSameParent
  infer_instance

def topoInit (memory : TopoTables) (desc : TopoDescription) : Option TopoTables := do
  let t ← memory.topologyInitCpus desc.validCpus
  let t ← t.topologyInitCores desc.validCpus desc.siblings
  let t ← t.topologyInitFromConfig .complexSet .core desc.validCpus desc.complexSets true
  let t ← t.topologyInitNuma desc.validCpus desc.numa
  let t ← t.topologyInitNode desc.validCpus
  if t.ParentsSet ∧ t.SiblingsHaveSameParent then some t else none

/-! ## A hierarchy -/

/-- What the tables have to be, for the CPUs that are there. -/
structure Hierarchy (t : TopoTables) (validCpus : Finset Nat) : Prop where
  /-- The logical ids are consecutive from zero. -/
  own : ∀ level, ∀ l < t.count level, (t.dom level l).parents level = l
  nonempty : ∀ level, ∀ l < t.count level, (t.dom level l).cpuSidMask.Nonempty
  disjoint : ∀ level, ∀ l < t.count level, ∀ l' < t.count level, l ≠ l' →
    Disjoint (t.dom level l).cpuSidMask (t.dom level l').cpuSidMask
  union : ∀ level c, c ∈ validCpus ↔ ∃ l < t.count level, c ∈ (t.dom level l).cpuSidMask
  lidMask : ∀ level, ∀ l < t.count level, ∀ i : Nat,
    i ∈ (t.dom level l).cpuLidMask ↔ ∃ c ∈ (t.dom level l).cpuSidMask, t.sToL .cpu c = i
  sToL_systemId : ∀ level, ∀ l < t.count level, t.sToL level (t.dom level l).systemId = l
  systemId_sToL : ∀ level x (l : Nat), t.sToL level x = l → l < t.count level ∧ (t.dom level l).systemId = x
  /-- The parents are the domains around a domain. -/
  parents : ∀ level k, k.rank < level.rank → ∀ l < t.count level,
    ∃ m < t.count k, (t.dom level l).parents k = m
      ∧ ∀ m' < t.count k, (t.dom level l).cpuSidMask ⊆ (t.dom k m').cpuSidMask ↔ m' = m

end TopoTables

end Nosv
