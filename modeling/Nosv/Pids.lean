import Mathlib.Data.List.Range
import Mathlib.Logic.Function.Basic
import Mathlib.Tactic.Common
import Nosv.Lib.Run

/-!
# Logical pids and free CPUs

`hardware/pids.c`: how processes get a logical pid, give it back in two
phases, and what happens to the CPUs of a process that leaves. Each section
under the lock of the pid manager is one step. A process that has
unregistered keeps its bit in `pids_alloc` until all its threads are gone,
so that nobody else gets its pid while they still pass their CPUs on.

Workers hand CPUs to other processes outside of the lock as well
(`handOver`), but only CPUs that somebody has.

Processes are named by numbers that the code knows nothing of.
-/

namespace Nosv

/-- `MAX_PIDS` -/
def maxPids : Nat := 512

/-- `BIT_FFS(MAX_PIDS, set) - 1`, `none` for `-1`. -/
def bitFfs (set : Nat → Bool) : Option Nat := (List.range maxPids).find? set

theorem bitFfs_some {set : Nat → Bool} {p : Nat} (h : bitFfs set = some p) :
    set p = true ∧ p < maxPids := by
  unfold bitFfs at h
  exact ⟨List.find?_some h, List.mem_range.mp (List.mem_of_find?_eq_some h)⟩

theorem bitFfs_none {set : Nat → Bool} (h : bitFfs set = none) : ∀ p < maxPids, set p = false := by
  intro p hp
  unfold bitFfs at h
  simpa using List.find?_eq_none.mp h p (List.mem_range.mpr hp)

/-! ## Free CPUs -/

/-- `cpu_pop_free` for process `pid`: the CPU, and the table after it. -/
def cpuPopFree (cpus : Nat) (pidsCpus : Nat → Option Nat) (pid : Nat) :
    Option (Nat × (Nat → Option Nat)) :=
  match (List.range cpus).find? fun i => pidsCpus i = none with
  | some i => some (i, Function.update pidsCpus i (some pid))
  | none => none

/-- The loop of `pidmanager_register` over the free CPUs. -/
def popAllFree (cpus pid : Nat) : Nat → (Nat → Option Nat) → Nat → Option Nat
  | 0, pidsCpus => pidsCpus
  | n + 1, pidsCpus =>
      match cpuPopFree cpus pidsCpus pid with
      | some (_, pidsCpus) => popAllFree cpus pid n pidsCpus
      | none => pidsCpus

theorem cpuPopFree_none {cpus pid : Nat} {f : Nat → Option Nat}
    (h : cpuPopFree cpus f pid = none) : ∀ c < cpus, f c ≠ none := by
  intro c hc hfree
  unfold cpuPopFree at h
  split at h
  · cases h
  · rename_i hfind
    have := List.find?_eq_none.mp hfind c (List.mem_range.mpr hc)
    simp [hfree] at this

theorem cpuPopFree_some {cpus pid i : Nat} {f g : Nat → Option Nat}
    (h : cpuPopFree cpus f pid = some (i, g)) :
    f i = none ∧ (∀ c < i, f c ≠ none) ∧ g = Function.update f i (some pid) := by
  unfold cpuPopFree at h
  split at h
  · rename_i j hfind
    obtain ⟨rfl, rfl⟩ := Prod.mk.inj (Option.some.inj h)
    obtain ⟨hfree, hbefore⟩ := List.find?_range_eq_some.mp hfind
    refine ⟨by simpa using hfree, fun c hc => ?_, rfl⟩
    have := hbefore.2 c hc
    simpa using this
  · cases h

/-- The loop leaves no CPU free: what is below the last CPU it took stays
taken. -/
theorem popAllFree_ne_none {cpus pid : Nat} :
    ∀ {n k : Nat} {f : Nat → Option Nat}, (∀ c < k, f c ≠ none) → cpus ≤ k + n →
      ∀ c < cpus, popAllFree cpus pid n f c ≠ none
  | 0, k, f, hk, hn => fun c hc => hk c (by omega)
  | n + 1, k, f, hk, hn => by
      cases hpop : cpuPopFree cpus f pid with
      | none =>
          simp only [popAllFree, hpop]
          exact cpuPopFree_none hpop
      | some r =>
          obtain ⟨i, g⟩ := r
          obtain ⟨hfree, hbelow, rfl⟩ := cpuPopFree_some hpop
          have hki : k ≤ i := by
            by_contra hlt
            exact hk i (by omega) hfree
          simp only [popAllFree, hpop]
          refine popAllFree_ne_none (k := i + 1) (fun c hc => ?_) (by omega)
          by_cases hci : c = i
          · rw [hci, Function.update_self]
            exact Option.some_ne_none pid
          · rw [Function.update_of_ne hci]
            exact hbelow c (by omega)

/-! ## The pid manager -/

inductive ProcState where
  | out
  | up (logicPid : Nat)
  /-- has unregistered, and some of its threads are still there -/
  | leaving (logicPid : Nat)
  deriving DecidableEq, Repr

def ProcState.logicPid : ProcState → Option Nat
  | .out => none
  | .up p => some p
  | .leaving p => some p

/-- The pid manager with `per_pid_structures` (whose structures they are)
and `pids_cpus`, and where each process is. -/
structure PidManager where
  pids : Nat → Bool
  pidsAlloc : Nat → Bool
  perPidStructures : Nat → Option Nat
  pidsCpus : Nat → Option Nat
  proc : Nat → ProcState

inductive PidMove where
  | register (q : Nat)
  | unregister (q : Nat)
  /-- `pidmanager_transfer_to_idle` of CPU `c` -/
  | transfer (q c : Nat)
  /-- the end of `pidmanager_shutdown` -/
  | shutdown (q : Nat)
  /-- a worker that has CPU `c` passes it to process `p` -/
  | handOver (c p : Nat)
  deriving DecidableEq, Repr

namespace PidManager

def pidmanagerRegister (cpus : Nat) (s : PidManager) (q : Nat) : Option PidManager :=
  match bitFfs fun p => !s.pidsAlloc p with
  | none => none
  | some p =>
      some { pids := Function.update s.pids p true
             pidsAlloc := Function.update s.pidsAlloc p true
             perPidStructures := Function.update s.perPidStructures p (some q)
             pidsCpus := popAllFree cpus p cpus s.pidsCpus
             proc := Function.update s.proc q (.up p) }

def pidmanagerUnregister (s : PidManager) (q p : Nat) : PidManager :=
  { s with
    pids := Function.update s.pids p false
    perPidStructures := Function.update s.perPidStructures p none
    proc := Function.update s.proc q (.leaving p) }

def pidmanagerTransferToIdle (s : PidManager) (c : Nat) : PidManager :=
  match bitFfs s.pids with
  | some p => { s with pidsCpus := Function.update s.pidsCpus c (some p) }
  | none => { s with pidsCpus := Function.update s.pidsCpus c none }

/-- The section at the end of `pidmanager_shutdown`. -/
def pidmanagerShutdown (s : PidManager) (q p : Nat) : PidManager :=
  { s with
    pidsAlloc := Function.update s.pidsAlloc p false
    proc := Function.update s.proc q .out }

def step (cpus : Nat) (s : PidManager) : PidMove → Option PidManager
  | .register q => if s.proc q = .out then s.pidmanagerRegister cpus q else none
  | .unregister q =>
      match s.proc q with
      | .up p => some (s.pidmanagerUnregister q p)
      | _ => none
  | .transfer q c =>
      match s.proc q with
      | .leaving _ => if c < cpus then some (s.pidmanagerTransferToIdle c) else none
      | _ => none
  | .shutdown q =>
      match s.proc q with
      | .leaving p => some (s.pidmanagerShutdown q p)
      | _ => none
  | .handOver c p =>
      if s.pidsCpus c ≠ none then
        some { s with pidsCpus := Function.update s.pidsCpus c (some p) }
      else none

/-- `pidmanager_init` and `topology_init_cpus`: no process, all CPUs free. -/
def init : PidManager where
  pids := fun _ => false
  pidsAlloc := fun _ => false
  perPidStructures := fun _ => none
  pidsCpus := fun _ => none
  proc := fun _ => .out

/-! ## The invariant -/

structure Inv (cpus : Nat) (s : PidManager) : Prop where
  bound : ∀ p, s.pids p = true → p < maxPids
  sub : ∀ p, s.pids p = true → s.pidsAlloc p = true
  structures : ∀ p, s.perPidStructures p ≠ none ↔ s.pids p = true
  alloc : ∀ q p, (s.proc q).logicPid = some p → s.pidsAlloc p = true
  distinct : ∀ q q' p, (s.proc q).logicPid = some p → (s.proc q').logicPid = some p → q = q'
  leaving : ∀ q p, s.proc q = .leaving p → s.pids p = false
  busy : ∀ p, s.pids p = true → ∀ c < cpus, s.pidsCpus c ≠ none

variable {cpus : Nat} {s s' : PidManager}

theorem inv_init : Inv cpus init := by
  refine ⟨?_, ?_, ?_, ?_, ?_, ?_, ?_⟩ <;> simp [init, ProcState.logicPid]

/-- The pid that a registering process is given is nobody's. -/
theorem Inv.fresh (h : s.Inv cpus) {p : Nat} (hfree : bitFfs (fun p => !s.pidsAlloc p) = some p) :
    ∀ q, (s.proc q).logicPid ≠ some p := by
  intro q hq
  have hset := (bitFfs_some hfree).1
  rw [h.alloc q p hq] at hset
  cases hset

theorem Inv.register {q : Nat} (h : s.Inv cpus)
    (hstep : s.pidmanagerRegister cpus q = some s') : s'.Inv cpus := by
  unfold pidmanagerRegister at hstep
  split at hstep
  · cases hstep
  rename_i p hfree
  obtain rfl := Option.some.inj hstep
  have hfresh := h.fresh hfree
  have hlogic (r : Nat) :
      (Function.update s.proc q (.up p) r).logicPid
        = if r = q then some p else (s.proc r).logicPid := by
    by_cases hr : r = q <;> simp [hr, ProcState.logicPid]
  refine ⟨fun r hr => ?_, fun r hr => ?_, fun r => ?_, fun r p' hr => ?_,
    fun r r' p' hr hr' => ?_, fun r p' hr => ?_,
    fun _ _ => popAllFree_ne_none (k := 0) (by omega) (by omega)⟩
  · dsimp only at hr
    by_cases hrp : r = p
    · rw [hrp]
      exact (bitFfs_some hfree).2
    · rw [Function.update_of_ne hrp] at hr
      exact h.bound r hr
  · dsimp only at hr ⊢
    by_cases hrp : r = p
    · rw [hrp, Function.update_self]
    · rw [Function.update_of_ne hrp] at hr ⊢
      exact h.sub r hr
  · by_cases hrp : r = p
    · simp [hrp]
    · simp only [Function.update_of_ne hrp]
      exact h.structures r
  · dsimp only at hr ⊢
    rw [hlogic] at hr
    by_cases hp : p' = p
    · rw [hp, Function.update_self]
    · rw [Function.update_of_ne hp]
      split at hr
      · exact absurd (Option.some.inj hr).symm hp
      · exact h.alloc r p' hr
  · dsimp only at hr hr'
    rw [hlogic] at hr hr'
    split at hr <;> split at hr'
    · rename_i hrq hrq'
      exact hrq.trans hrq'.symm
    · exact absurd (hr'.trans hr.symm) (hfresh r')
    · exact absurd (hr.trans hr'.symm) (hfresh r)
    · exact h.distinct r r' p' hr hr'
  · dsimp only at hr ⊢
    by_cases hrq : r = q
    · rw [hrq, Function.update_self] at hr
      cases hr
    · rw [Function.update_of_ne hrq] at hr
      have hne : p' ≠ p := fun heq => hfresh r (by rw [hr, heq]; rfl)
      rw [Function.update_of_ne hne]
      exact h.leaving r p' hr

theorem Inv.unregister {q p : Nat} (h : s.Inv cpus) (hup : s.proc q = .up p) :
    (s.pidmanagerUnregister q p).Inv cpus := by
  have hlogic (r : Nat) :
      (Function.update s.proc q (.leaving p) r).logicPid = (s.proc r).logicPid := by
    by_cases hr : r = q
    · rw [hr, Function.update_self, hup]
      rfl
    · rw [Function.update_of_ne hr]
  have hpids {r : Nat} (hr : Function.update s.pids p false r = true) : s.pids r = true := by
    by_cases hrp : r = p
    · rw [hrp, Function.update_self] at hr
      cases hr
    · rwa [Function.update_of_ne hrp] at hr
  refine ⟨fun r hr => h.bound r (hpids hr), fun r hr => h.sub r (hpids hr), fun r => ?_, fun r p' hr => ?_,
    fun r r' p' hr hr' => ?_, fun r p' hr => ?_, fun r hr => h.busy r (hpids hr)⟩
  · by_cases hrp : r = p
    · simp [pidmanagerUnregister, hrp]
    · simp only [pidmanagerUnregister, Function.update_of_ne hrp]
      exact h.structures r
  · exact h.alloc r p' ((hlogic r).symm.trans hr)
  · exact h.distinct r r' p' ((hlogic r).symm.trans hr) ((hlogic r').symm.trans hr')
  · simp only [pidmanagerUnregister] at hr ⊢
    by_cases hpp : p' = p
    · rw [hpp, Function.update_self]
    · rw [Function.update_of_ne hpp]
      have hrq : r ≠ q := by
        rintro rfl
        rw [Function.update_self] at hr
        exact hpp (ProcState.leaving.inj hr).symm
      rw [Function.update_of_ne hrq] at hr
      exact h.leaving r p' hr

/-- `pids_cpus` may change where all CPUs stay taken, or no process is
registered. -/
theorem Inv.setCpu {c : Nat} {o : Option Nat} (h : s.Inv cpus)
    (ho : o = none → ∀ p, s.pids p = false) :
    Inv cpus { s with pidsCpus := Function.update s.pidsCpus c o } := by
  refine ⟨h.bound, h.sub, h.structures, h.alloc, h.distinct, h.leaving, fun p hp c' hc' => ?_⟩
  dsimp only
  by_cases hcc : c' = c
  · rw [hcc]
    intro hnone
    rw [Function.update_self] at hnone
    have hfalse := ho hnone p
    rw [hp] at hfalse
    cases hfalse
  · rw [Function.update_of_ne hcc]
    exact h.busy p hp c' hc'

theorem Inv.transfer (h : s.Inv cpus) (c : Nat) : (s.pidmanagerTransferToIdle c).Inv cpus := by
  unfold pidmanagerTransferToIdle
  split
  · exact h.setCpu fun hnone => absurd hnone (Option.some_ne_none _)
  · rename_i hnone
    refine h.setCpu fun _ p => ?_
    by_contra hp
    have hset : s.pids p = true := by simpa using hp
    rw [bitFfs_none hnone p (h.bound p hset)] at hset
    cases hset

theorem Inv.shutdown {q p : Nat} (h : s.Inv cpus) (hl : s.proc q = .leaving p) :
    (s.pidmanagerShutdown q p).Inv cpus := by
  have hlogic {r p' : Nat} (hr : (Function.update s.proc q .out r).logicPid = some p') :
      r ≠ q ∧ (s.proc r).logicPid = some p' := by
    by_cases hrq : r = q
    · rw [hrq, Function.update_self] at hr
      cases hr
    · rw [Function.update_of_ne hrq] at hr
      exact ⟨hrq, hr⟩
  have hq : (s.proc q).logicPid = some p := by rw [hl]; rfl
  refine ⟨h.bound, fun r hr => ?_, h.structures, fun r p' hr => ?_, fun r r' p' hr hr' => ?_,
    fun r p' hr => ?_, h.busy⟩
  · have hne : r ≠ p := by
      rintro rfl
      have hset : s.pids r = true := hr
      rw [h.leaving q r hl] at hset
      cases hset
    simp only [pidmanagerShutdown, Function.update_of_ne hne]
    exact h.sub r hr
  · obtain ⟨hrq, hr⟩ := hlogic hr
    have hne : p' ≠ p := fun heq => hrq (h.distinct r q p (heq ▸ hr) hq)
    simp only [pidmanagerShutdown, Function.update_of_ne hne]
    exact h.alloc r p' hr
  · exact h.distinct r r' p' (hlogic hr).2 (hlogic hr').2
  · simp only [pidmanagerShutdown] at hr ⊢
    by_cases hrq : r = q
    · rw [hrq, Function.update_self] at hr
      cases hr
    · rw [Function.update_of_ne hrq] at hr
      exact h.leaving r p' hr

theorem Inv.step {a : PidMove} (h : s.Inv cpus) (hstep : s.step cpus a = some s') :
    s'.Inv cpus := by
  cases a with
  | register q =>
      exact h.register (Option.ite_none_right_eq_some.mp hstep).2
  | unregister q =>
      simp only [PidManager.step] at hstep
      split at hstep
      · rename_i p hup
        obtain rfl := Option.some.inj hstep
        exact h.unregister hup
      · cases hstep
  | transfer q c =>
      simp only [PidManager.step] at hstep
      split at hstep
      · obtain ⟨-, heq⟩ := Option.ite_none_right_eq_some.mp hstep
        obtain rfl := Option.some.inj heq
        exact h.transfer c
      · cases hstep
  | shutdown q =>
      simp only [PidManager.step] at hstep
      split at hstep
      · rename_i p hl
        obtain rfl := Option.some.inj hstep
        exact h.shutdown hl
      · cases hstep
  | handOver c p =>
      obtain ⟨-, heq⟩ := Option.ite_none_right_eq_some.mp hstep
      obtain rfl := Option.some.inj heq
      exact h.setCpu fun hnone => absurd hnone (Option.some_ne_none p)

/-! ## Whole runs -/

/-- What holds whenever the lock of the pid manager is free. -/
structure Sound (cpus : Nat) (s : PidManager) : Prop where
  sub : ∀ p, s.pids p = true → s.pidsAlloc p = true
  distinct : ∀ q q' p, (s.proc q).logicPid = some p → (s.proc q').logicPid = some p → q = q'
  structures : ∀ p, s.perPidStructures p ≠ none ↔ s.pids p = true
  busy : (∃ p, s.pids p = true) → ∀ c < cpus, s.pidsCpus c ≠ none

/-- What a step may count on: the pid that a process is given has no owner,
and `pidmanager_transfer_to_idle` does not find the pid of its caller. -/
def Fair (s : PidManager) : PidMove → Prop
  | .register _ => ∀ p, bitFfs (fun p => !s.pidsAlloc p) = some p →
      ∀ q, (s.proc q).logicPid ≠ some p
  | .transfer q _ => ∀ p, s.proc q = .leaving p → bitFfs s.pids ≠ some p
  | _ => True

theorem Inv.fair (h : s.Inv cpus) (a : PidMove) : s.Fair a := by
  cases a with
  | register q => exact fun p hp => h.fresh hp
  | transfer q c =>
      intro p hl hffs
      have hset := (bitFfs_some hffs).1
      rw [h.leaving q p hl] at hset
      cases hset
  | unregister q => trivial
  | shutdown q => trivial
  | handOver c p => trivial

end PidManager

open PidManager Run

/-- In every run the pid manager is sound after every step, and no step
gives out a pid that is in use or finds the pid of its caller. -/
theorem pids_sound {cpus : Nat} {as : List PidMove} {s : PidManager}
    (hrun : run (PidManager.step cpus) init as = some s) :
    Along (PidManager.step cpus) Fair init as ∧ s.Sound cpus := by
  have hkeep (s : PidManager) (a : PidMove) (s' : PidManager) (_ : True)
      (hstep : s.step cpus a = some s') (h : s.Inv cpus) : s'.Inv cpus := h.step hstep
  refine ⟨along_of_invariant hkeep (fun s a _ h => h.fair a)
    (along_of_forall_mem fun _ _ _ => trivial) inv_init, ?_⟩
  have h : s.Inv cpus := invariant (fun s a s' => hkeep s a s' trivial) hrun inv_init
  exact ⟨h.sub, h.distinct, h.structures, fun ⟨p, hp⟩ => h.busy p hp⟩

/-- Process 2 does not get the pid of process 0, which still has threads;
process 3 does. -/
theorem pids_sound_reuse :
    ∃ s, run (PidManager.step 2) init [.register 0, .register 1, .unregister 0, .transfer 0 1,
        .register 2, .shutdown 0, .register 3] = some s
      ∧ s.Sound 2 ∧ s.proc 2 = .up 2 ∧ s.proc 3 = .up 0 := by
  have hall : ((run (PidManager.step 2) init [.register 0, .register 1, .unregister 0,
      .transfer 0 1, .register 2, .shutdown 0, .register 3]).map
        fun s => (s.proc 2, s.proc 3)) = some (.up 2, .up 0) := by decide +kernel
  obtain ⟨s, hrun, heq⟩ := Option.map_eq_some_iff.mp hall
  obtain ⟨h2, h3⟩ := Prod.mk.inj heq
  exact ⟨s, hrun, (pids_sound hrun).2, h2, h3⟩

end Nosv
