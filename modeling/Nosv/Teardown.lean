import Nosv.Lib.Ledger
import Nosv.Task
import Nosv.Topology

/-!
# Setting up and tearing down the shared modules

What `topo_init` and `scheduler_init` ask of the slab allocator, and what
`scheduler_free` and `topo_free` give back when the last process leaves.
The functions are programs over the ledger of the allocator; the
structures hold the blocks that the fields of the source point to.

A program gets stuck when the allocator has no bucket for a size, which
ends the initialisation (`salloc` gives `NULL`) and which is an assertion
in `sfree`, and when it reads past the end of an array.

`malloc` is left out: the domains of a level that `topology_init_level`
puts there are copied to a block of their own by
`topology_truncate_level`.
-/

namespace Nosv

namespace Teardown

open Ledger

/-- What the compiler and the machine decide: the sizes of the types and
the result of `count_leading_zeros` for zero, which the builtin leaves
open. A cache line has room for two words. -/
structure Platform where
  cacheline : Nat
  clzZero : Int
  sizeofScheduler : Nat
  sizeofMpscQueue : Nat
  sizeofSubqueue : Nat
  sizeofSpscQueue : Nat
  sizeofDtlockItem : Nat
  sizeofTimestamp : Nat
  sizeofProcessScheduler : Nat
  sizeofSchedulerQueue : Nat
  sizeofTopology : Nat
  sizeofTopoDomain : Nat
  sizeofCpuManager : Nat
  sizeofCpu : Nat
  cacheline_ge : 16 ≤ cacheline
  clzZero_ge : -2147483648 ≤ clzZero
  clzZero_lt : clzZero < 2147483648

def slabAllocMin : Nat := 3

def slabBuckets : Nat := 20 - slabAllocMin

def nrCpus : Nat := 256

def sizeofInt : Nat := 4

def sizeofPointer : Nat := 8

namespace Platform

variable (plat : Platform)

/-- `sizeof` of a type with alignment `__cacheline_aligned` -/
def cachelineAligned (size : Nat) : Nat :=
  (size + plat.cacheline - 1) / plat.cacheline * plat.cacheline

/-- Two 64-bit words -/
def sizeofDtlockNode : Nat := plat.cachelineAligned 16

/-- One 32-bit word -/
def sizeofFutex : Nat := plat.cachelineAligned 4

/-- Of a 64-bit word -/
def countLeadingZeros (n : Nat) : Int := if n = 0 then plat.clzZero else 63 - Nat.log2 n

def nextPowerOfTwo (n : Nat) : Nat :=
  ((64 - plat.countLeadingZeros (u64 (n + 18446744073709551615))) % 18446744073709551616).toNat

/-- The bucket of a block, as `salloc` and `sfree` compute it. -/
def allocsize (size : Nat) : Nat :=
  if plat.nextPowerOfTwo size < slabAllocMin then slabAllocMin else plat.nextPowerOfTwo size

/-- There is a bucket for the size. -/
def Fits (size : Nat) : Prop := plat.allocsize size < slabBuckets + slabAllocMin

instance (size : Nat) : Decidable (plat.Fits size) := inferInstanceAs (Decidable (_ < _))

/-- Two sizes have the same bucket. -/
def SameBucket (size size' : Nat) : Prop := plat.allocsize size = plat.allocsize size'

end Platform

/-- A program over the ledger that may get stuck. -/
abbrev Slab := StateT (Ledger Nat) Option

section Model

variable (plat : Platform)

def salloc (size : Nat) : Slab Nat := fun l =>
  if plat.Fits size then some (l.next, l.alloc size) else none

def sfree (block size : Nat) : Slab Unit := fun l =>
  if plat.Fits size then some ((), l.free block size) else none

/-! ## The scheduler -/

/-- What `config_check` accepts of the numbers that are read here. -/
structure QueueConf where
  cpusPerQueue : Nat
  inQueueSize : Nat
  cpusPerQueue_pos : 0 < cpusPerQueue
  cpusPerQueue_lt : cpusPerQueue < 18446744073709551616
  inQueueSize_pos : 0 < inQueueSize
  inQueueSize_lt : inQueueSize < 18446744073709551616

/-- `delegation_lock_t` -/
structure DelegationLock where
  waitqueue : Nat
  items : Nat
  cpuSleepVars : Nat

/-- `mpsc_queue_t`; `subqueues` are the `queue` fields of the array. -/
structure MpscQueue where
  self : Nat
  queues : Nat
  subqueues : List Nat

/-- `process_scheduler_t` -/
structure ProcessBlocks where
  self : Nat
  perCpuQueuePreferred : Nat
  perCpuQueueStrict : Nat
  perNumaQueuePreferred : Nat
  perNumaQueueStrict : Nat

/-- `scheduler_t` -/
structure SchedulerBlocks where
  self : Nat
  dtlock : DelegationLock
  inQueue : MpscQueue
  timestamps : Nat
  queues : List ProcessBlocks

def dtlockInit (size : Nat) : Slab DelegationLock := do
  let waitqueue ← salloc plat (plat.sizeofDtlockNode * size)
  let items ← salloc plat (plat.sizeofDtlockItem * size)
  let cpuSleepVars ← salloc plat (plat.sizeofFutex * size)
  return ⟨waitqueue, items, cpuSleepVars⟩

def dtlockFree (d : DelegationLock) (size : Nat) : Slab Unit := do
  sfree plat d.cpuSleepVars (plat.sizeofFutex * size)
  sfree plat d.items (plat.sizeofDtlockItem * size)
  sfree plat d.waitqueue (plat.sizeofFutex * size)

def sizeofSpsc (slots : Nat) : Nat := u64 (plat.sizeofSpscQueue + slots * sizeofPointer)

def spscAlloc (slots : Nat) : Slab Nat := salloc plat (sizeofSpsc plat slots)

def spscFree (queue slots : Nat) : Slab Unit := sfree plat queue (sizeofSpsc plat slots)

/-- `nqueues` as `mpsc_alloc` rounds it -/
def roundedQueues (cpus cpusPerQueue : Nat) : Nat := u64 (cpus + cpusPerQueue - 1) / cpusPerQueue

/-- The loop of `mpsc_alloc` -/
def mpscAllocSubqueues (slots : Nat) : Nat → Slab (List Nat)
  | 0 => return []
  | n + 1 => do
      let queue ← spscAlloc plat slots
      let rest ← mpscAllocSubqueues slots n
      return queue :: rest

def mpscAlloc (conf : QueueConf) (nqueues slots : Nat) : Slab MpscQueue := do
  let self ← salloc plat plat.sizeofMpscQueue
  let nqueues := roundedQueues nqueues conf.cpusPerQueue
  let queues ← salloc plat (plat.sizeofSubqueue * (nqueues + 1))
  let subqueues ← mpscAllocSubqueues plat slots (nqueues + 1)
  return ⟨self, queues, subqueues⟩

/-- The loop of `mpsc_free`, with the entries of the array that are still
to come -/
def mpscFreeSubqueues (slots : Nat) : List Nat → Nat → Slab Unit
  | _, 0 => return ()
  | [], _ + 1 => failure
  | queue :: rest, n + 1 => do
      spscFree plat queue slots
      mpscFreeSubqueues slots rest n

def mpscFree (q : MpscQueue) (nqueues slots : Nat) : Slab Unit := do
  mpscFreeSubqueues plat slots q.subqueues (nqueues + 1)
  sfree plat q.queues (plat.sizeofSubqueue * (nqueues + 1))
  sfree plat q.self plat.sizeofMpscQueue

def schedulerInit (conf : QueueConf) (cpuCount : Nat) : Slab SchedulerBlocks := do
  let self ← salloc plat plat.sizeofScheduler
  let dtlock ← dtlockInit plat (cpuCount * 2)
  let inQueue ← mpscAlloc plat conf cpuCount conf.inQueueSize
  let timestamps ← salloc plat (plat.sizeofTimestamp * cpuCount)
  return ⟨self, dtlock, inQueue, timestamps, []⟩

def schedulerInitPid (cpus numas : Nat) : Slab ProcessBlocks := do
  let self ← salloc plat plat.sizeofProcessScheduler
  let perCpuQueuePreferred ← salloc plat (plat.sizeofSchedulerQueue * cpus)
  let perCpuQueueStrict ← salloc plat (plat.sizeofSchedulerQueue * cpus)
  let perNumaQueuePreferred ← salloc plat (plat.sizeofSchedulerQueue * numas)
  let perNumaQueueStrict ← salloc plat (plat.sizeofSchedulerQueue * numas)
  return ⟨self, perCpuQueuePreferred, perCpuQueueStrict, perNumaQueuePreferred, perNumaQueueStrict⟩

def schedulerFreePid (cpus numas : Nat) (sched : ProcessBlocks) : Slab Unit := do
  sfree plat sched.perNumaQueuePreferred (plat.sizeofSchedulerQueue * numas)
  sfree plat sched.perNumaQueueStrict (plat.sizeofSchedulerQueue * numas)
  sfree plat sched.perCpuQueuePreferred (plat.sizeofSchedulerQueue * cpus)
  sfree plat sched.perCpuQueueStrict (plat.sizeofSchedulerQueue * cpus)
  sfree plat sched.self plat.sizeofProcessScheduler

def schedulerFree (conf : QueueConf) (cpuCount numas : Nat) (s : SchedulerBlocks) : Slab Unit := do
  sfree plat s.timestamps (plat.sizeofTimestamp * cpuCount)
  mpscFree plat s.inQueue cpuCount conf.inQueueSize
  dtlockFree plat s.dtlock (cpuCount * 2)
  s.queues.forM (schedulerFreePid plat cpuCount numas)
  sfree plat s.self plat.sizeofScheduler

/-! ## The topology -/

/-- The numbers of domains that `topo_init` finds at the levels, and
`numa_max_node` with the number of nodes where these come from libnuma. -/
structure TopoShape where
  cpus : Nat
  cores : Nat
  complexSets : Nat
  numas : Nat
  libnuma : Option (Nat × Nat)
  cpus_pos : 0 < cpus
  cpus_le : cpus ≤ nrCpus

/-- `topology_t` -/
structure TopologyBlocks where
  self : Nat
  sToL : TopoLevel → Option Nat
  sMax : TopoLevel → Nat
  domains : TopoLevel → Option Nat
  count : TopoLevel → Nat

/-- `cpumanager_t` -/
structure CpuManager where
  self : Nat
  pidsCpus : Nat

def TopologyBlocks.setSToL (t : TopologyBlocks) (level : TopoLevel) (block max : Nat) :
    TopologyBlocks :=
  { t with
    sToL := Function.update t.sToL level (some block)
    sMax := Function.update t.sMax level max }

def TopologyBlocks.setDomains (t : TopologyBlocks) (level : TopoLevel) (block cnt : Nat) :
    TopologyBlocks :=
  { t with
    domains := Function.update t.domains level (some block)
    count := Function.update t.count level cnt }

def topologyInitDomainSToL (t : TopologyBlocks) (level : TopoLevel) (max : Nat) :
    Slab TopologyBlocks := do
  let block ← salloc plat (sizeofInt * (max + 1))
  return t.setSToL level block max

def topologyTruncateLevel (t : TopologyBlocks) (level : TopoLevel) (finalcnt : Nat) :
    Slab TopologyBlocks := do
  let block ← salloc plat (plat.sizeofTopoDomain * finalcnt)
  return t.setDomains level block finalcnt

def topologyInitCpus (t : TopologyBlocks) (cnt : Nat) : Slab (TopologyBlocks × CpuManager) := do
  let domains ← salloc plat (plat.sizeofTopoDomain * cnt)
  let self ← salloc plat (plat.sizeofCpuManager + cnt * plat.sizeofCpu)
  let t ← topologyInitDomainSToL plat (t.setDomains .cpu domains cnt) .cpu nrCpus
  let pidsCpus ← salloc plat (sizeofInt * cnt)
  return (t, ⟨self, pidsCpus⟩)

def topologyInitCores (t : TopologyBlocks) (cores : Nat) : Slab TopologyBlocks := do
  let t ← topologyInitDomainSToL plat t .core nrCpus
  topologyTruncateLevel plat t .core cores

def topologyInitFromConfig (t : TopologyBlocks) (level below : TopoLevel) (cnt : Nat) :
    Slab TopologyBlocks := do
  let t ← topologyInitDomainSToL plat t level (t.count below - 1)
  topologyTruncateLevel plat t level cnt

def topologyInitNumaFromLibnuma (t : TopologyBlocks) (numaMax libnumaCount numas : Nat) :
    Slab TopologyBlocks := do
  let t ← topologyInitDomainSToL plat t .numa numaMax
  let domains ← salloc plat (plat.sizeofTopoDomain * libnumaCount)
  let tmp ← salloc plat (plat.sizeofTopoDomain * numas)
  sfree plat domains (plat.sizeofTopoDomain * libnumaCount)
  return t.setDomains .numa tmp numas

/-- From the configuration, or with one node for all CPUs, if there is no
libnuma -/
def topologyInitNuma (shape : TopoShape) (t : TopologyBlocks) : Slab TopologyBlocks :=
  match shape.libnuma with
  | none => topologyInitFromConfig plat t .numa .complexSet shape.numas
  | some (numaMax, libnumaCount) => topologyInitNumaFromLibnuma plat t numaMax libnumaCount shape.numas

def topologyInitNode (t : TopologyBlocks) : Slab TopologyBlocks := do
  let t ← topologyInitDomainSToL plat t .node 0
  topologyTruncateLevel plat t .node 1

def topoInit (shape : TopoShape) : Slab (TopologyBlocks × CpuManager) := do
  let self ← salloc plat plat.sizeofTopology
  let (t, m) ← topologyInitCpus plat ⟨self, fun _ => none, fun _ => 0, fun _ => none, fun _ => 0⟩ shape.cpus
  let t ← topologyInitCores plat t shape.cores
  let t ← topologyInitFromConfig plat t .complexSet .core shape.complexSets
  let t ← topologyInitNuma plat shape t
  let t ← topologyInitNode plat t
  return (t, m)

def sfreeOption (block : Option Nat) (size : Nat) : Slab Unit :=
  match block with
  | some block => sfree plat block size
  | none => return ()

/-- The body of the loop of `topo_free` -/
def topoFreeLevel (t : TopologyBlocks) (lvl : TopoLevel) : Slab Unit := do
  sfreeOption plat (t.sToL lvl) (sizeofInt * (t.sMax lvl + 1))
  sfreeOption plat (t.domains lvl) (plat.sizeofTopoDomain * t.count lvl)

def topoLevels : List TopoLevel := [.node, .numa, .complexSet, .core, .cpu]

def topoFree (t : TopologyBlocks) (m : CpuManager) : Slab Unit := do
  let cpuCnt := t.count .cpu
  sfree plat m.pidsCpus cpuCnt
  sfree plat m.self (plat.sizeofCpuManager + cpuCnt * plat.sizeofCpu)
  topoLevels.forM (topoFreeLevel plat t)
  sfree plat t.self plat.sizeofTopology

/-! ## From the first process to the last -/

/-- The shared modules. -/
structure SharedModules where
  topology : TopologyBlocks
  cpumanager : CpuManager
  scheduler : SchedulerBlocks

/-- `scheduler_init_pid` for so many processes -/
def schedulerInitPids (cpus numas : Nat) : Nat → Slab (List ProcessBlocks)
  | 0 => return []
  | n + 1 => do
      let sched ← schedulerInitPid plat cpus numas
      let rest ← schedulerInitPids cpus numas n
      return sched :: rest

/-- `smem_initialize_first`, and the processes that submit tasks after it -/
def sharedInit (conf : QueueConf) (shape : TopoShape) (processes : Nat) : Slab SharedModules := do
  let (topology, cpumanager) ← topoInit plat shape
  let scheduler ← schedulerInit plat conf (topology.count .cpu)
  let queues ← schedulerInitPids plat (topology.count .cpu) (topology.count .numa) processes
  return ⟨topology, cpumanager, { scheduler with queues := queues }⟩

/-- `segment_unregister_last` -/
def sharedFree (conf : QueueConf) (shared : SharedModules) : Slab Unit := do
  schedulerFree plat conf (shared.topology.count .cpu) (shared.topology.count .numa) shared.scheduler
  topoFree plat shared.topology shared.cpumanager

end Model

/-! ## Buckets -/

section Buckets

variable (plat : Platform)

theorem nextPowerOfTwo_succ {n : Nat} (hpos : 0 < n) (hlt : n < 18446744073709551616) :
    plat.nextPowerOfTwo (n + 1) = Nat.log2 n + 1 := by
  have hpred : u64 (n + 1 + 18446744073709551615) = n := by
    unfold u64
    omega
  have hlog : Nat.log2 n < 64 := (Nat.log2_lt (by omega)).mpr hlt
  rw [Platform.nextPowerOfTwo, hpred, Platform.countLeadingZeros, if_neg (by omega)]
  omega

theorem log2_four_mul {n : Nat} (hpos : 0 < n) : Nat.log2 (4 * n + 3) = Nat.log2 n + 2 := by
  rw [Nat.log2_def, if_pos (by omega), Nat.log2_def, if_pos (by omega)]
  rw [show (4 * n + 3) / 2 / 2 = n by omega]

theorem allocsize_of_lt (size : Nat) (h : 2 ≤ size) (hlt : size ≤ 18446744073709551616) :
    plat.allocsize size = max slabAllocMin (Nat.log2 (size - 1) + 1) := by
  have hnext := nextPowerOfTwo_succ plat (n := size - 1) (by omega) (by omega)
  rw [Nat.sub_add_cancel (by omega)] at hnext
  rw [Platform.allocsize, hnext]
  split <;> omega

/-- An array of bytes for the CPUs has the bucket of the array of integers. -/
def SameArray (cnt : Nat) : Prop := plat.Fits cnt ∧ plat.SameBucket (sizeofInt * cnt) cnt

theorem sameArray_iff {cnt : Nat} (hpos : 0 < cnt) (hle : cnt ≤ nrCpus) :
    SameArray plat cnt ↔ cnt = 2 ∨ (cnt = 1 ∧ 61 ≤ plat.clzZero ∧ plat.clzZero ≤ 64) := by
  unfold nrCpus at hle
  obtain rfl | rfl | hge : cnt = 1 ∨ cnt = 2 ∨ 3 ≤ cnt := by omega
  · -- the size `1` is the only one that asks for the leading zeros of zero
    have hfour : plat.allocsize (sizeofInt * 1) = slabAllocMin :=
      allocsize_of_lt plat _ (by decide) (by decide)
    have hge := plat.clzZero_ge
    have hlt := plat.clzZero_lt
    have hone : plat.nextPowerOfTwo 1 = ((64 - plat.clzZero) % 18446744073709551616).toNat := rfl
    rw [SameArray, Platform.SameBucket, Platform.Fits, hfour, Platform.allocsize, hone]
    unfold slabBuckets slabAllocMin
    split <;> omega
  · have htwo : plat.allocsize 2 = slabAllocMin := allocsize_of_lt plat _ (by decide) (by decide)
    have height : plat.allocsize (sizeofInt * 2) = slabAllocMin :=
      allocsize_of_lt plat _ (by decide) (by decide)
    rw [SameArray, Platform.SameBucket, Platform.Fits, htwo, height]
    exact iff_of_true ⟨by decide, rfl⟩ (Or.inl rfl)
  · have hcnt := allocsize_of_lt plat cnt (by omega) (by omega)
    have hints := allocsize_of_lt plat (sizeofInt * cnt)
      (by unfold sizeofInt; omega) (by unfold sizeofInt; omega)
    rw [show sizeofInt * cnt - 1 = 4 * (cnt - 1) + 3 by unfold sizeofInt; omega,
      log2_four_mul (by omega)] at hints
    have hlog : 1 ≤ Nat.log2 (cnt - 1) := (Nat.le_log2 (by omega)).mpr (by omega)
    rw [SameArray, Platform.SameBucket, hcnt, hints]
    unfold slabAllocMin
    omega

end Buckets

/-! ## Blocks that are got and given back -/

section Blocks

variable {plat : Platform} {l l' l'' : Ledger Nat} {own own' : Multiset (Nat × Nat)} {α : Type}

/-- From `l` to `l'` the program has got the blocks `own`, which have their
buckets. -/
def Gets (plat : Platform) (l l' : Ledger Nat) (own : Multiset (Nat × Nat)) : Prop :=
  l.Allocates l' own ∧ ∀ x ∈ own, plat.Fits x.2

/-- The program gives the blocks `own` back, if these have their buckets. -/
def Returns (plat : Platform) (m : Slab Unit) (own : Multiset (Nat × Nat)) : Prop :=
  (∀ x ∈ own, plat.Fits x.2) → ∀ l, ∃ l', m l = some ((), l') ∧ l.Releases l' own

theorem Gets.trans (h : Gets plat l l' own) (h' : Gets plat l' l'' own') :
    Gets plat l l'' (own + own') := by
  refine ⟨h.1.trans h'.1, fun x hx => ?_⟩
  rcases Multiset.mem_add.mp hx with hx | hx
  · exact h.2 x hx
  · exact h'.2 x hx

theorem Gets.refl (l : Ledger Nat) : Gets plat l l 0 :=
  ⟨Allocates.refl l, fun x hx => absurd hx (Multiset.notMem_zero x)⟩

theorem Gets.congr (h : Gets plat l l' own) (heq : own = own') : Gets plat l l' own' := heq ▸ h

theorem gets_salloc {size block : Nat} (h : salloc plat size l = some (block, l')) :
    Gets plat l l' {(block, size)} := by
  obtain ⟨hfits, h⟩ := Option.ite_none_right_eq_some.mp h
  cases h
  refine ⟨allocates_alloc l size, fun x hx => ?_⟩
  rw [Multiset.mem_singleton.mp hx]
  exact hfits

theorem pure_eq_some {a b : α} (h : (pure a : Slab α) l = some (b, l')) : b = a ∧ l' = l := by
  cases h
  exact ⟨rfl, rfl⟩

theorem Returns.bind {m m' : Slab Unit} (h : Returns plat m own) (h' : Returns plat m' own') :
    Returns plat (do m; m') (own + own') := by
  intro hfits l
  obtain ⟨l₁, hm, hrel⟩ := h (fun x hx => hfits x (Multiset.mem_add.mpr (Or.inl hx))) l
  obtain ⟨l₂, hm', hrel'⟩ := h' (fun x hx => hfits x (Multiset.mem_add.mpr (Or.inr hx))) l₁
  exact ⟨l₂, bind_eq_some.mpr ⟨(), l₁, hm, hm'⟩, hrel.trans hrel'⟩

theorem returns_pure : Returns plat (pure ()) 0 := fun _ l => ⟨l, rfl, Releases.refl l⟩

theorem returns_sfree (block size : Nat) : Returns plat (sfree plat block size) {(block, size)} := by
  intro hfits l
  exact ⟨_, if_pos (hfits _ (Multiset.mem_singleton_self _)), releases_free l block size⟩

/-- A loop gives back what its rounds give back. -/
theorem returns_forM {f : α → Slab Unit} {blocks : α → Multiset (Nat × Nat)}
    (hf : ∀ a, Returns plat (f a) (blocks a)) (as : List α) :
    Returns plat (as.forM f) (as.map blocks).sum := by
  induction as with
  | nil => exact returns_pure
  | cons a as ih => exact (hf a).bind ih

end Blocks

/-! ## The scheduler -/

section Scheduler

variable {plat : Platform} {l l' : Ledger Nat}

theorem sizeofDtlockNode_eq : plat.sizeofDtlockNode = plat.sizeofFutex := by
  have hle := plat.cacheline_ge
  have hone : ∀ size, 0 < size → size ≤ 16 → plat.cachelineAligned size = plat.cacheline := by
    intro size hpos hsize
    rw [Platform.cachelineAligned, Nat.div_eq_of_lt_le (k := 1) (by omega) (by omega), Nat.one_mul]
  rw [Platform.sizeofDtlockNode, Platform.sizeofFutex, hone 16 (by decide) (by decide),
    hone 4 (by decide) (by decide)]

def DelegationLock.owned (plat : Platform) (d : DelegationLock) (size : Nat) : Multiset (Nat × Nat) :=
  {(d.waitqueue, plat.sizeofDtlockNode * size)} + {(d.items, plat.sizeofDtlockItem * size)}
    + {(d.cpuSleepVars, plat.sizeofFutex * size)}

theorem gets_dtlockInit {size : Nat} {d : DelegationLock} (h : dtlockInit plat size l = some (d, l')) :
    Gets plat l l' (d.owned plat size) := by
  obtain ⟨waitqueue, l₁, h₁, h⟩ := bind_eq_some.mp h
  obtain ⟨items, l₂, h₂, h⟩ := bind_eq_some.mp h
  obtain ⟨cpuSleepVars, l₃, h₃, h⟩ := bind_eq_some.mp h
  obtain ⟨rfl, rfl⟩ := pure_eq_some h
  exact ((gets_salloc h₁).trans (gets_salloc h₂)).trans (gets_salloc h₃)

/-- The lock is given back block for block: a node of the wait queue and a
futex take one cache line each. -/
theorem returns_dtlockFree (d : DelegationLock) (size : Nat) :
    Returns plat (dtlockFree plat d size) (d.owned plat size) := by
  rw [DelegationLock.owned, sizeofDtlockNode_eq, add_comm, add_comm {_} {_}]
  exact (returns_sfree _ _).bind ((returns_sfree _ _).bind (returns_sfree _ _))

def ownedSubqueues (plat : Platform) (slots : Nat) (subqueues : List Nat) : Multiset (Nat × Nat) :=
  (subqueues.map fun queue => ({(queue, sizeofSpsc plat slots)} : Multiset (Nat × Nat))).sum

def MpscQueue.owned (plat : Platform) (q : MpscQueue) (slots : Nat) : Multiset (Nat × Nat) :=
  ownedSubqueues plat slots q.subqueues + {(q.queues, plat.sizeofSubqueue * q.subqueues.length)}
    + {(q.self, plat.sizeofMpscQueue)}

theorem gets_mpscAllocSubqueues {slots n : Nat} :
    ∀ {l l' : Ledger Nat} {subqueues : List Nat},
      mpscAllocSubqueues plat slots n l = some (subqueues, l') →
      Gets plat l l' (ownedSubqueues plat slots subqueues) ∧ subqueues.length = n := by
  induction n with
  | zero =>
      intro l l' subqueues h
      obtain ⟨rfl, rfl⟩ := pure_eq_some h
      exact ⟨Gets.refl l', rfl⟩
  | succ n ih =>
      intro l l' subqueues h
      obtain ⟨queue, l₁, h₁, h⟩ := bind_eq_some.mp h
      obtain ⟨rest, l₂, h₂, h⟩ := bind_eq_some.mp h
      obtain ⟨rfl, rfl⟩ := pure_eq_some h
      obtain ⟨hrest, hlen⟩ := ih h₂
      exact ⟨(gets_salloc h₁).trans hrest, congrArg (· + 1) hlen⟩

theorem gets_mpscAlloc {conf : QueueConf} {nqueues slots : Nat} {q : MpscQueue}
    (h : mpscAlloc plat conf nqueues slots l = some (q, l')) :
    Gets plat l l' (q.owned plat slots)
      ∧ q.subqueues.length = roundedQueues nqueues conf.cpusPerQueue + 1 := by
  obtain ⟨self, l₁, h₁, h⟩ := bind_eq_some.mp h
  obtain ⟨queues, l₂, h₂, h⟩ := bind_eq_some.mp h
  obtain ⟨subqueues, l₃, h₃, h⟩ := bind_eq_some.mp h
  obtain ⟨rfl, rfl⟩ := pure_eq_some h
  obtain ⟨hsub, hlen⟩ := gets_mpscAllocSubqueues h₃
  refine ⟨?_, hlen⟩
  rw [MpscQueue.owned, hlen, add_comm, add_comm (ownedSubqueues ..), ← add_assoc]
  exact ((gets_salloc h₁).trans (gets_salloc h₂)).trans hsub

theorem returns_mpscFreeSubqueues {slots : Nat} (subqueues : List Nat) :
    Returns plat (mpscFreeSubqueues plat slots subqueues subqueues.length)
      (ownedSubqueues plat slots subqueues) := by
  induction subqueues with
  | nil => exact returns_pure
  | cons queue rest ih => exact (returns_sfree _ _).bind ih

/-- With more queues than there are, the loop leaves the array. -/
theorem mpscFreeSubqueues_none {slots n : Nat} {subqueues : List Nat} (hlt : subqueues.length < n) :
    ∀ l, mpscFreeSubqueues plat slots subqueues n l = none := by
  induction subqueues generalizing n with
  | nil =>
      obtain ⟨n, rfl⟩ : ∃ m, n = m + 1 := ⟨n - 1, by simp at hlt; omega⟩
      exact fun _ => rfl
  | cons queue rest ih =>
      intro l
      obtain ⟨n, rfl⟩ : ∃ m, n = m + 1 := ⟨n - 1, by simp at hlt; omega⟩
      refine Option.eq_none_iff_forall_ne_some.mpr fun r h => ?_
      obtain ⟨-, l₁, -, h⟩ := bind_eq_some.mp h
      rw [ih (by simpa using hlt)] at h
      cases h

theorem returns_mpscFree {q : MpscQueue} {nqueues slots : Nat} (hlen : q.subqueues.length = nqueues + 1) :
    Returns plat (mpscFree plat q nqueues slots) (q.owned plat slots) := by
  rw [MpscQueue.owned, add_assoc, hlen]
  refine Returns.bind ?_ ((returns_sfree _ _).bind (returns_sfree _ _))
  rw [← hlen]
  exact returns_mpscFreeSubqueues q.subqueues

def ProcessBlocks.owned (plat : Platform) (cpus numas : Nat) (sched : ProcessBlocks) :
    Multiset (Nat × Nat) :=
  {(sched.perNumaQueuePreferred, plat.sizeofSchedulerQueue * numas)}
    + ({(sched.perNumaQueueStrict, plat.sizeofSchedulerQueue * numas)}
    + ({(sched.perCpuQueuePreferred, plat.sizeofSchedulerQueue * cpus)}
    + ({(sched.perCpuQueueStrict, plat.sizeofSchedulerQueue * cpus)}
    + {(sched.self, plat.sizeofProcessScheduler)})))

theorem gets_schedulerInitPid {cpus numas : Nat} {sched : ProcessBlocks}
    (h : schedulerInitPid plat cpus numas l = some (sched, l')) :
    Gets plat l l' (sched.owned plat cpus numas) := by
  obtain ⟨self, l₁, h₁, h⟩ := bind_eq_some.mp h
  obtain ⟨cpuPreferred, l₂, h₂, h⟩ := bind_eq_some.mp h
  obtain ⟨cpuStrict, l₃, h₃, h⟩ := bind_eq_some.mp h
  obtain ⟨numaPreferred, l₄, h₄, h⟩ := bind_eq_some.mp h
  obtain ⟨numaStrict, l₅, h₅, h⟩ := bind_eq_some.mp h
  obtain ⟨rfl, rfl⟩ := pure_eq_some h
  have hgets := ((((gets_salloc h₁).trans (gets_salloc h₂)).trans (gets_salloc h₃)).trans
    (gets_salloc h₄)).trans (gets_salloc h₅)
  refine hgets.congr ?_
  simp only [ProcessBlocks.owned]
  ac_rfl

theorem returns_schedulerFreePid (cpus numas : Nat) (sched : ProcessBlocks) :
    Returns plat (schedulerFreePid plat cpus numas sched) (sched.owned plat cpus numas) :=
  (returns_sfree _ _).bind ((returns_sfree _ _).bind ((returns_sfree _ _).bind
    ((returns_sfree _ _).bind (returns_sfree _ _))))

theorem gets_schedulerInitPids {cpus numas n : Nat} :
    ∀ {l l' : Ledger Nat} {queues : List ProcessBlocks},
      schedulerInitPids plat cpus numas n l = some (queues, l') →
      Gets plat l l' (queues.map (ProcessBlocks.owned plat cpus numas)).sum := by
  induction n with
  | zero =>
      intro l l' queues h
      obtain ⟨rfl, rfl⟩ := pure_eq_some h
      exact Gets.refl l'
  | succ n ih =>
      intro l l' queues h
      obtain ⟨sched, l₁, h₁, h⟩ := bind_eq_some.mp h
      obtain ⟨rest, l₂, h₂, h⟩ := bind_eq_some.mp h
      obtain ⟨rfl, rfl⟩ := pure_eq_some h
      exact (gets_schedulerInitPid h₁).trans (ih h₂)

def SchedulerBlocks.owned (plat : Platform) (conf : QueueConf) (cpuCount numas : Nat)
    (s : SchedulerBlocks) : Multiset (Nat × Nat) :=
  {(s.timestamps, plat.sizeofTimestamp * cpuCount)}
    + (s.inQueue.owned plat conf.inQueueSize
    + (s.dtlock.owned plat (cpuCount * 2)
    + ((s.queues.map (ProcessBlocks.owned plat cpuCount numas)).sum
    + {(s.self, plat.sizeofScheduler)})))

theorem gets_schedulerInit {conf : QueueConf} {cpuCount : Nat} (numas : Nat) {s : SchedulerBlocks}
    (h : schedulerInit plat conf cpuCount l = some (s, l')) :
    Gets plat l l' (s.owned plat conf cpuCount numas) ∧ s.queues = []
      ∧ s.inQueue.subqueues.length = roundedQueues cpuCount conf.cpusPerQueue + 1 := by
  obtain ⟨self, l₁, h₁, h⟩ := bind_eq_some.mp h
  obtain ⟨dtlock, l₂, h₂, h⟩ := bind_eq_some.mp h
  obtain ⟨inQueue, l₃, h₃, h⟩ := bind_eq_some.mp h
  obtain ⟨timestamps, l₄, h₄, h⟩ := bind_eq_some.mp h
  obtain ⟨rfl, rfl⟩ := pure_eq_some h
  obtain ⟨hqueue, hlen⟩ := gets_mpscAlloc h₃
  refine ⟨Gets.congr ((((gets_salloc h₁).trans (gets_dtlockInit h₂)).trans hqueue).trans
    (gets_salloc h₄)) ?_, rfl, hlen⟩
  simp only [SchedulerBlocks.owned, List.map_nil, List.sum_nil, zero_add]
  ac_rfl

theorem returns_schedulerFree {conf : QueueConf} {cpuCount numas : Nat} {s : SchedulerBlocks}
    (hlen : s.inQueue.subqueues.length = cpuCount + 1) :
    Returns plat (schedulerFree plat conf cpuCount numas s) (s.owned plat conf cpuCount numas) :=
  (returns_sfree _ _).bind ((returns_mpscFree hlen).bind ((returns_dtlockFree _ _).bind
    ((returns_forM (returns_schedulerFreePid cpuCount numas) _).bind (returns_sfree _ _))))

/-- With more queues than `mpsc_alloc` has made, `mpsc_free` leaves the
array. -/
theorem schedulerFree_none {conf : QueueConf} {cpuCount numas : Nat} {s : SchedulerBlocks}
    (hlt : s.inQueue.subqueues.length < cpuCount + 1) :
    schedulerFree plat conf cpuCount numas s l = none := by
  refine Option.eq_none_iff_forall_ne_some.mpr fun r h => ?_
  obtain ⟨_, l₁, _, h⟩ := bind_eq_some.mp h
  obtain ⟨_, l₂, hmpsc, _⟩ := bind_eq_some.mp h
  obtain ⟨_, l₃, hloop, _⟩ := bind_eq_some.mp hmpsc
  rw [mpscFreeSubqueues_none hlt] at hloop
  cases hloop

/-- The rounded number of queues is the number of CPUs only without
rounding. -/
theorem roundedQueues_lt {cpus cpusPerQueue : Nat} (hcpus : 2 ≤ cpus) (hle : cpus ≤ nrCpus)
    (hper : 2 ≤ cpusPerQueue) : roundedQueues cpus cpusPerQueue < cpus := by
  unfold nrCpus at hle
  rw [roundedQueues, Nat.div_lt_iff_lt_mul (by omega)]
  have hmod : u64 (cpus + cpusPerQueue - 1) ≤ cpus + cpusPerQueue - 1 := Nat.mod_le _ _
  have hmul : cpus + cpusPerQueue ≤ cpus * cpusPerQueue := Nat.add_le_mul hcpus hper
  omega

theorem roundedQueues_eq {cpus cpusPerQueue : Nat} (hpos : 0 < cpus) (hle : cpus ≤ nrCpus)
    (hper : 0 < cpusPerQueue) (hlt : cpusPerQueue < 18446744073709551616)
    (h : cpus = 1 ∨ cpusPerQueue = 1) : roundedQueues cpus cpusPerQueue = cpus := by
  unfold nrCpus at hle
  rcases h with rfl | rfl
  · rw [roundedQueues, Nat.add_sub_cancel_left, u64, Nat.mod_eq_of_lt hlt, Nat.div_self hper]
  · rw [roundedQueues, Nat.add_sub_cancel, u64, Nat.mod_eq_of_lt (by omega), Nat.div_one]

end Scheduler

/-! ## The topology -/

section TopologyBlocks

variable {plat : Platform} {l l' : Ledger Nat} {t t' : TopologyBlocks}

def ownedOption (block : Option Nat) (size : Nat) : Multiset (Nat × Nat) :=
  match block with
  | some block => {(block, size)}
  | none => 0

def TopologyBlocks.ownedLevel (plat : Platform) (t : TopologyBlocks) (lvl : TopoLevel) :
    Multiset (Nat × Nat) :=
  ownedOption (t.sToL lvl) (sizeofInt * (t.sMax lvl + 1))
    + ownedOption (t.domains lvl) (plat.sizeofTopoDomain * t.count lvl)

theorem returns_sfreeOption (block : Option Nat) (size : Nat) :
    Returns plat (sfreeOption plat block size) (ownedOption block size) := by
  cases block with
  | none => exact returns_pure
  | some block => exact returns_sfree block size

theorem returns_topoFreeLevel (lvl : TopoLevel) :
    Returns plat (topoFreeLevel plat t lvl) (t.ownedLevel plat lvl) :=
  (returns_sfreeOption _ _).bind (returns_sfreeOption _ _)

/-- A level that is set up. -/
def TopologyBlocks.setLevel (t : TopologyBlocks) (level : TopoLevel) (map max domains cnt : Nat) :
    TopologyBlocks :=
  (t.setSToL level map max).setDomains level domains cnt

/-- The function sets up level `level` with `cnt` domains. -/
def SetsUp (plat : Platform) (t t' : TopologyBlocks) (level : TopoLevel) (cnt : Nat)
    (l l' : Ledger Nat) : Prop :=
  ∃ map max domains, t' = t.setLevel level map max domains cnt
    ∧ Gets plat l l' ({(map, sizeofInt * (max + 1))} + {(domains, plat.sizeofTopoDomain * cnt)})

theorem setLevel_ownedLevel {level : TopoLevel} {map max domains cnt : Nat} :
    (t.setLevel level map max domains cnt).ownedLevel plat level =
      {(map, sizeofInt * (max + 1))} + {(domains, plat.sizeofTopoDomain * cnt)} := by
  simp [TopologyBlocks.ownedLevel, TopologyBlocks.setLevel, TopologyBlocks.setSToL,
    TopologyBlocks.setDomains, ownedOption]

theorem setLevel_ownedLevel_of_ne {level lvl : TopoLevel} {map max domains cnt : Nat}
    (hne : lvl ≠ level) :
    (t.setLevel level map max domains cnt).ownedLevel plat lvl = t.ownedLevel plat lvl := by
  simp [TopologyBlocks.ownedLevel, TopologyBlocks.setLevel, TopologyBlocks.setSToL,
    TopologyBlocks.setDomains, hne]

theorem setLevel_count {level lvl : TopoLevel} {map max domains cnt : Nat} :
    (t.setLevel level map max domains cnt).count lvl = if lvl = level then cnt else t.count lvl :=
  Function.update_apply ..

theorem setsUp_topologyInitLevel {level : TopoLevel} {max cnt : Nat}
    (h : (do
      let t ← topologyInitDomainSToL plat t level max
      topologyTruncateLevel plat t level cnt) l = some (t', l')) : SetsUp plat t t' level cnt l l' := by
  obtain ⟨t₁, l₁, h₁, h⟩ := bind_eq_some.mp h
  obtain ⟨map, l₂, h₂, h₁⟩ := bind_eq_some.mp h₁
  obtain ⟨rfl, rfl⟩ := pure_eq_some h₁
  obtain ⟨domains, l₃, h₃, h⟩ := bind_eq_some.mp h
  obtain ⟨rfl, rfl⟩ := pure_eq_some h
  exact ⟨map, max, domains, rfl, (gets_salloc h₂).trans (gets_salloc h₃)⟩

theorem setsUp_topologyInitNuma {shape : TopoShape}
    (h : topologyInitNuma plat shape t l = some (t', l')) :
    SetsUp plat t t' .numa shape.numas l l' := by
  unfold topologyInitNuma at h
  rcases hlib : shape.libnuma with _ | ⟨numaMax, libnumaCount⟩ <;> rw [hlib] at h
  · exact setsUp_topologyInitLevel h
  · obtain ⟨t₁, l₁, h₁, h⟩ := bind_eq_some.mp h
    obtain ⟨map, l₂, h₂, h₁⟩ := bind_eq_some.mp h₁
    obtain ⟨rfl, rfl⟩ := pure_eq_some h₁
    obtain ⟨domains, l₃, h₃, h⟩ := bind_eq_some.mp h
    obtain ⟨tmp, l₄, h₄, h⟩ := bind_eq_some.mp h
    obtain ⟨⟨⟩, l₅, h₅, h⟩ := bind_eq_some.mp h
    obtain ⟨rfl, rfl⟩ := pure_eq_some h
    obtain ⟨-, h₅⟩ := Option.ite_none_right_eq_some.mp h₅
    cases h₅
    have hgets := ((gets_salloc h₂).trans (gets_salloc h₃)).trans (gets_salloc h₄)
    refine ⟨map, _, tmp, rfl, hgets.1.free, fun x hx => hgets.2 x ?_⟩
    simp only [Multiset.mem_add] at hx ⊢
    exact hx.imp_left Or.inl

/-- All blocks of the topology but `pids_cpus` -/
def topoOwned (plat : Platform) (t : TopologyBlocks) (m : CpuManager) : Multiset (Nat × Nat) :=
  {(m.self, plat.sizeofCpuManager + t.count .cpu * plat.sizeofCpu)}
    + ((topoLevels.map (t.ownedLevel plat)).sum + {(t.self, plat.sizeofTopology)})

theorem setsUp_topologyInitCpus {cnt : Nat} {m : CpuManager}
    (h : topologyInitCpus plat t cnt l = some ((t', m), l')) :
    ∃ map domains, t' = t.setLevel .cpu map nrCpus domains cnt
      ∧ Gets plat l l' ({(domains, plat.sizeofTopoDomain * cnt)}
        + {(m.self, plat.sizeofCpuManager + cnt * plat.sizeofCpu)}
        + {(map, sizeofInt * (nrCpus + 1))} + {(m.pidsCpus, sizeofInt * cnt)}) := by
  obtain ⟨domains, l₁, h₁, h⟩ := bind_eq_some.mp h
  obtain ⟨self, l₂, h₂, h⟩ := bind_eq_some.mp h
  obtain ⟨t₁, l₃, h₃, h⟩ := bind_eq_some.mp h
  obtain ⟨map, l₄, h₄, h₃⟩ := bind_eq_some.mp h₃
  obtain ⟨rfl, rfl⟩ := pure_eq_some h₃
  obtain ⟨pidsCpus, l₅, h₅, h⟩ := bind_eq_some.mp h
  obtain ⟨heq, rfl⟩ := pure_eq_some h
  obtain ⟨rfl, rfl⟩ := Prod.mk.injEq .. |>.mp heq
  exact ⟨map, domains, rfl, (((gets_salloc h₁).trans (gets_salloc h₂)).trans (gets_salloc h₄)).trans
    (gets_salloc h₅)⟩

theorem add_levels {M : Type} [AddCommMonoid M] (self pids manager map₁ domains₁ own₂ own₃ own₄ own₅ : M) :
    self + (domains₁ + manager + map₁ + pids) + own₂ + own₃ + own₄ + own₅ =
      pids + (manager + (own₅ + (own₄ + (own₃ + (own₂ + (map₁ + domains₁)))) + self)) := by
  abel

theorem gets_topoInit {shape : TopoShape} {m : CpuManager}
    (h : topoInit plat shape l = some ((t, m), l')) :
    Gets plat l l' ({(m.pidsCpus, sizeofInt * shape.cpus)} + topoOwned plat t m)
      ∧ t.count .cpu = shape.cpus := by
  obtain ⟨self, l₁, hself, h⟩ := bind_eq_some.mp h
  obtain ⟨⟨tcpu, m'⟩, l₂, hcpus, h⟩ := bind_eq_some.mp h
  obtain ⟨tcore, l₃, hcores, h⟩ := bind_eq_some.mp h
  obtain ⟨tset, l₄, hsets, h⟩ := bind_eq_some.mp h
  obtain ⟨tnuma, l₅, hnuma, h⟩ := bind_eq_some.mp h
  obtain ⟨tnode, l₆, hnode, h⟩ := bind_eq_some.mp h
  obtain ⟨heq, rfl⟩ := pure_eq_some h
  obtain ⟨rfl, rfl⟩ := Prod.mk.injEq .. |>.mp heq
  obtain ⟨map₁, domains₁, rfl, hgets₁⟩ := setsUp_topologyInitCpus hcpus
  obtain ⟨map₂, max₂, domains₂, rfl, hgets₂⟩ := setsUp_topologyInitLevel hcores
  obtain ⟨map₃, max₃, domains₃, rfl, hgets₃⟩ := setsUp_topologyInitLevel hsets
  obtain ⟨map₄, max₄, domains₄, rfl, hgets₄⟩ := setsUp_topologyInitNuma hnuma
  obtain ⟨map₅, max₅, domains₅, rfl, hgets₅⟩ := setsUp_topologyInitLevel hnode
  have hcount : ∀ t₀ : TopologyBlocks, (((((t₀.setLevel .cpu map₁ nrCpus domains₁ shape.cpus).setLevel
      .core map₂ max₂ domains₂ shape.cores).setLevel .complexSet map₃ max₃ domains₃
      shape.complexSets).setLevel .numa map₄ max₄ domains₄ shape.numas).setLevel .node map₅ max₅
      domains₅ 1).count .cpu = shape.cpus := fun t₀ => by simp [setLevel_count]
  refine ⟨Gets.congr ((((((gets_salloc hself).trans hgets₁).trans hgets₂).trans hgets₃).trans
    hgets₄).trans hgets₅) ?_, hcount _⟩
  rw [topoOwned, hcount]
  simp only [topoLevels, List.map_cons, List.map_nil, List.sum_cons, List.sum_nil, add_zero,
    setLevel_ownedLevel, @setLevel_ownedLevel_of_ne plat, ne_eq, reduceCtorEq, not_false_eq_true]
  exact add_levels ..

theorem returns_topoFree (m : CpuManager) :
    Returns plat (topoFree plat t m) ({(m.pidsCpus, t.count .cpu)} + topoOwned plat t m) :=
  (returns_sfree _ _).bind ((returns_sfree _ _).bind
    ((returns_forM (fun lvl => returns_topoFreeLevel lvl) _).bind (returns_sfree _ _)))

end TopologyBlocks

/-! ## From the first process to the last -/

section SharedModules

variable {plat : Platform} {conf : QueueConf} {shape : TopoShape} {processes : Nat}
  {shared : SharedModules} {l : Ledger Nat}

/-- The blocks of the scheduler, and those of the topology but `pids_cpus` -/
def SharedModules.owned (plat : Platform) (conf : QueueConf) (shared : SharedModules) :
    Multiset (Nat × Nat) :=
  shared.scheduler.owned plat conf (shared.topology.count .cpu) (shared.topology.count .numa)
    + topoOwned plat shared.topology shared.cpumanager

theorem gets_sharedInit {l₀ : Ledger Nat} (h : sharedInit plat conf shape processes l₀ = some (shared, l)) :
    Gets plat l₀ l ({(shared.cpumanager.pidsCpus, sizeofInt * shape.cpus)} + shared.owned plat conf)
      ∧ shared.topology.count .cpu = shape.cpus
      ∧ shared.scheduler.inQueue.subqueues.length = roundedQueues shape.cpus conf.cpusPerQueue + 1 := by
  obtain ⟨⟨t, m⟩, l₁, h₁, h⟩ := bind_eq_some.mp h
  obtain ⟨s, l₂, h₂, h⟩ := bind_eq_some.mp h
  obtain ⟨queues, l₃, h₃, h⟩ := bind_eq_some.mp h
  obtain ⟨rfl, rfl⟩ := pure_eq_some h
  obtain ⟨htopo, hcount⟩ := gets_topoInit h₁
  obtain ⟨hsched, hnil, hlen⟩ := gets_schedulerInit (t.count .numa) h₂
  refine ⟨Gets.congr ((htopo.trans hsched).trans (gets_schedulerInitPids h₃)) ?_, hcount, ?_⟩
  · simp only [SharedModules.owned, SchedulerBlocks.owned, hnil, List.map_nil, List.sum_nil, zero_add]
    abel
  · rw [hlen, hcount]

/-- What the last process gives back: everything but `pids_cpus` as it was
got. -/
theorem sharedFree_eq (hlen : shared.scheduler.inQueue.subqueues.length = shared.topology.count .cpu + 1)
    (hfits : plat.Fits (shared.topology.count .cpu)) (howned : ∀ x ∈ shared.owned plat conf, plat.Fits x.2) :
    ∃ l', sharedFree plat conf shared l = some ((), l') ∧ l.Releases l'
      (shared.scheduler.owned plat conf (shared.topology.count .cpu) (shared.topology.count .numa)
        + ({(shared.cpumanager.pidsCpus, shared.topology.count .cpu)}
          + topoOwned plat shared.topology shared.cpumanager)) := by
  refine (returns_schedulerFree hlen).bind (returns_topoFree _) (fun x hx => ?_) l
  rcases Multiset.mem_add.mp hx with hx | hx
  · exact howned x (Multiset.mem_add.mpr (Or.inl hx))
  · rcases Multiset.mem_add.mp hx with hx | hx
    · rw [Multiset.mem_singleton.mp hx]
      exact hfits
    · exact howned x (Multiset.mem_add.mpr (Or.inr hx))

/-- When the last process leaves, the blocks that the topology and the
scheduler have got are given back, each once and to the bucket it is from,
exactly if there are two CPUs with a queue each, or one CPU and
`count_leading_zeros` has a fitting result for zero. With three CPUs or
more, `pids_cpus` goes to a bucket that is too small; with several CPUs to
a queue, `mpsc_free` leaves the array of the queues. -/
theorem teardown_settled_iff (h : sharedInit plat conf shape processes .empty = some (shared, l)) :
    (∃ l', sharedFree plat conf shared l = some ((), l') ∧ l'.Settled plat.SameBucket) ↔
      (shape.cpus = 2 ∧ conf.cpusPerQueue = 1)
        ∨ (shape.cpus = 1 ∧ 61 ≤ plat.clzZero ∧ plat.clzZero ≤ 64) := by
  obtain ⟨⟨⟨hfresh, spent, hallocs, hfrees⟩, hfits⟩, hcount, hlen⟩ := gets_sharedInit h
  have hnodup := (hfresh fresh_empty).1
  have howned : ∀ x ∈ shared.owned plat conf, plat.Fits x.2 := fun x hx =>
    hfits x (Multiset.mem_add.mpr (Or.inr hx))
  by_cases hround : shape.cpus = 1 ∨ conf.cpusPerQueue = 1
  · rw [roundedQueues_eq shape.cpus_pos shape.cpus_le conf.cpusPerQueue_pos conf.cpusPerQueue_lt
      hround, ← hcount] at hlen
    have hsame : (∃ l', sharedFree plat conf shared l = some ((), l') ∧ l'.Settled plat.SameBucket) ↔
        SameArray plat shape.cpus := by
      constructor
      · rintro ⟨l', hfree, hsettled⟩
        obtain ⟨_, l₁, _, htopo⟩ := bind_eq_some.mp hfree
        obtain ⟨_, l₂, hpids, _⟩ := bind_eq_some.mp htopo
        have hfit := (Option.ite_none_right_eq_some.mp hpids).1
        obtain ⟨l'', hfree', hrel⟩ := sharedFree_eq hlen hfit howned
        obtain ⟨-, rfl⟩ := Prod.mk.injEq .. |>.mp (Option.some.inj (hfree.symm.trans hfree'))
        rw [hcount] at hfit
        refine ⟨hfit, hsettled.size (shared.cpumanager.pidsCpus, _) ?_
          (shared.cpumanager.pidsCpus, shape.cpus) ?_ rfl⟩
        · rw [hrel.1, hallocs]
          simp
        · rw [hrel.2, hcount]
          simp
      · rintro ⟨hfit, hbucket⟩
        rw [← hcount] at hfit
        obtain ⟨l', hfree, hrel⟩ := sharedFree_eq hlen hfit howned
        refine ⟨l', hfree, settled_of_rel (by rwa [hrel.1]) ?_⟩
        have hallocs' : l'.allocs = (shared.cpumanager.pidsCpus, sizeofInt * shape.cpus)
            ::ₘ (shared.owned plat conf + spent) := by
          rw [hrel.1, hallocs, ← Multiset.singleton_add, Ledger.empty, zero_add, add_assoc]
        have hfrees' : l'.frees = (shared.cpumanager.pidsCpus, shape.cpus)
            ::ₘ (shared.owned plat conf + spent) := by
          rw [hrel.2, hfrees, hcount, SharedModules.owned, hcount, ← Multiset.singleton_add,
            show (Ledger.empty : Ledger Nat).frees = 0 from rfl, zero_add]
          abel
        rw [hallocs', hfrees']
        exact .cons ⟨rfl, hbucket⟩ (Multiset.rel_refl_of_refl_on fun _ _ => ⟨rfl, rfl⟩)
    rw [hsame, sameArray_iff plat shape.cpus_pos shape.cpus_le]
    have := conf.cpusPerQueue_pos
    omega
  · -- more queues are asked for than there are
    have hlt : roundedQueues shape.cpus conf.cpusPerQueue < shape.cpus :=
      roundedQueues_lt (by have := shape.cpus_pos; omega) shape.cpus_le
        (by have := conf.cpusPerQueue_pos; omega)
    rw [not_or] at hround
    refine iff_of_false (fun hsettled => ?_) (by omega)
    obtain ⟨l', hfree, -⟩ := hsettled
    obtain ⟨_, l₁, hsched, _⟩ := bind_eq_some.mp hfree
    rw [schedulerFree_none (by rw [hlen, hcount]; omega)] at hsched
    cases hsched

/-- A machine with cache lines of 64 bytes. -/
def x86 : Platform where
  cacheline := 64
  clzZero := 64
  sizeofScheduler := 6784
  sizeofMpscQueue := 32
  sizeofSubqueue := 64
  sizeofSpscQueue := 192
  sizeofDtlockItem := 64
  sizeofTimestamp := 16
  sizeofProcessScheduler := 144
  sizeofSchedulerQueue := 24
  sizeofTopology := 328
  sizeofTopoDomain := 112
  sizeofCpuManager := 8
  sizeofCpu := 160
  cacheline_ge := by decide
  clzZero_ge := by decide
  clzZero_lt := by decide

theorem one_queue_lt : 1 < 18446744073709551616 := by decide

/-- The defaults of the configuration. -/
def defaultConf : QueueConf where
  cpusPerQueue := 1
  inQueueSize := 256
  cpusPerQueue_pos := Nat.one_pos
  cpusPerQueue_lt := one_queue_lt
  inQueueSize_pos := by decide
  inQueueSize_lt := by decide

/-- One NUMA node of CPUs that each are a core. -/
def singleThreaded (cpus : Nat) (hpos : 0 < cpus) (hle : cpus ≤ nrCpus) : TopoShape :=
  ⟨cpus, cpus, cpus, 1, some (0, 1), hpos, hle⟩

/-- Two CPUs with the default configuration, and one process. -/
theorem teardown_settled_two :
    ∃ shared l, sharedInit x86 defaultConf (singleThreaded 2 (by decide) (by decide)) 1 .empty
        = some (shared, l)
      ∧ ∃ l', sharedFree x86 defaultConf shared l = some ((), l') ∧ l'.Settled x86.SameBucket := by
  have hsome : (sharedInit x86 defaultConf (singleThreaded 2 (by decide) (by decide)) 1
      .empty).isSome = true := by
    decide +kernel
  obtain ⟨⟨shared, l⟩, hinit⟩ := Option.isSome_iff_exists.mp hsome
  exact ⟨shared, l, hinit, (teardown_settled_iff hinit).mpr (Or.inl ⟨rfl, rfl⟩)⟩

/-- With four CPUs and the default configuration, `pids_cpus` is got with
16 bytes and given back with 4. -/
theorem pids_cpus_wrong_bucket :
    ¬ ∀ (plat : Platform) (conf : QueueConf) (shape : TopoShape) (processes : Nat)
        (shared : SharedModules) (l : Ledger Nat),
      sharedInit plat conf shape processes .empty = some (shared, l) →
        ∃ l', sharedFree plat conf shared l = some ((), l') ∧ l'.Settled plat.SameBucket := by
  intro hall
  have hrun : ∃ r ∈ sharedInit x86 defaultConf (singleThreaded 4 (by decide) (by decide)) 1 .empty,
      ∃ r' ∈ sharedFree x86 defaultConf r.1 r.2,
        (r.1.cpumanager.pidsCpus, 16) ∈ r'.2.allocs ∧ (r.1.cpumanager.pidsCpus, 4) ∈ r'.2.frees := by
    decide +kernel
  obtain ⟨⟨shared, l⟩, hinit, ⟨⟨⟩, l'⟩, hfree, hgot, hgave⟩ := hrun
  obtain ⟨l'', hfree', hsettled⟩ := hall _ _ _ _ shared l hinit
  obtain rfl : l' = l'' := (Prod.mk.injEq .. |>.mp (Option.some.inj (hfree.symm.trans hfree'))).2
  exact absurd (hsettled.size _ hgot _ hgave rfl)
    (show ¬ x86.allocsize 16 = x86.allocsize 4 by decide +kernel)

end SharedModules

end Teardown

end Nosv
