import Mathlib.Data.Finset.Card
import Mathlib.Logic.Function.Basic
import Nosv.Lib.Run
import Nosv.Pids

/-!
# The shared memory segment

`memory/sharedmemory.c`: how processes find, create, check and leave the
segment that has their common name. Opening, locking and examining a
segment are steps of their own, between which other processes and the
kernel move; so is every slot that `check_processes_correct` looks at, and
the call that removes the name.

A segment is an inode. It is linked as long as the name leads to it, which
is what `st_nlink` shows, and the name leads to one segment at most.
`flock` gives the lock of a segment to one process at a time. A process is
named by its pid and its start time, as in the slots of a segment, and
`/proc` has the start time of the process that runs under a pid; a process
is dead when `/proc` does not show it any more.

A process dies only outside of the two functions, or by `nosv_abort`.
-/

namespace Nosv

/-- `process_identifier_t` -/
structure ProcId where
  pid : Nat
  start : Nat
  deriving DecidableEq, Repr

/-- `smem_config_t`, as far as the life of the segment depends on it, with
the lock and the size of its file. The logs record which process has
brought `count` to zero, freed the shared modules, and removed the name of
the segment. -/
structure Segment where
  size : Bool
  processes : Nat → Option ProcId
  count : Int
  lock : Option ProcId
  firsts : Nat
  rests : Nat
  zeroed : List ProcId
  freed : List ProcId
  unlinked : List ProcId

/-- The file that `shm_open` creates. -/
def Segment.empty : Segment := ⟨false, fun _ => none, 0, none, 0, 0, [], [], []⟩

/-- Where a process is in `segment_create` and `segment_unregister`: what it
does next, and with which segment. -/
inductive SegPc where
  | idle
  | opening
  | opened (g : Nat)
  | locked (g : Nat)
  | checking (g i : Nat)
  | stale (g : Nat)
  | retry (g : Nat)
  | first (g : Nat)
  | rest (g : Nat)
  | returning (g : Nat)
  | attached (g : Nat)
  | closing (g : Nat)
  | leaving (g : Nat)
  | last (g : Nat)
  | left (g : Nat)
  | aborted
  deriving DecidableEq

namespace SegPc

/-- The segment whose lock the process has. -/
def holds : SegPc → Option Nat
  | locked g | checking g _ | stale g | retry g | first g | rest g | returning g => some g
  | leaving g | last g | left g => some g
  | _ => none

/-- The segment in which the process is registered. -/
def registered : SegPc → Option Nat
  | returning g | attached g | closing g | leaving g => some g
  | _ => none

/-- The segment that the process has open. -/
def segment : SegPc → Option Nat
  | opened g | attached g | closing g => some g
  | pc => pc.holds

/-- Outside of the two functions. -/
def outside : SegPc → Bool
  | idle | attached _ => true
  | _ => false

end SegPc

/-- The name, the segments, `/proc`, and the processes. `deadAtCall` are the
processes that were dead when the process called `segment_create`. -/
structure Smem where
  linked : Option Nat
  next : Nat
  seg : Nat → Segment
  stat : Nat → Option Nat
  used : List ProcId
  pc : ProcId → SegPc
  slotConfig : ProcId → Option Nat
  deadAtCall : ProcId → List ProcId

/-- What happens: a new process or a fork, a call, a death, or the next step
of a process inside of a call. -/
inductive SmemOp where
  | spawn (p : ProcId) (parent : Option ProcId)
  | create (p : ProcId)
  | unregister (p : ProcId)
  | die (p : ProcId)
  | step (p : ProcId)
  deriving DecidableEq

namespace Smem

def start : Smem where
  linked := none
  next := 0
  seg _ := Segment.empty
  stat _ := none
  used := []
  pc _ := .idle
  slotConfig _ := none
  deadAtCall _ := []

/-- `get_process` finds the process. -/
def Alive (s : Smem) (p : ProcId) : Prop := s.stat p.pid = some p.start

instance (s : Smem) (p : ProcId) : Decidable (s.Alive p) :=
  inferInstanceAs (Decidable (_ = _))

def setPc (s : Smem) (p : ProcId) (pc : SegPc) : Smem :=
  { s with pc := Function.update s.pc p pc }

def setSeg (s : Smem) (g : Nat) (r : Segment) : Smem :=
  { s with seg := Function.update s.seg g r }

/-- `shm_unlink` of the name, by process `p`. -/
def shmUnlink (s : Smem) (p : ProcId) : Smem :=
  match s.linked with
  | some h => { s.setSeg h { s.seg h with unlinked := (s.seg h).unlinked ++ [p] } with linked := none }
  | none => s

/-- The first slot without a process. -/
def freeSlot (r : Segment) : Option Nat := (List.range maxPids).find? fun i => r.processes i = none

/-- `smem_initialize_first`, and the increment of `count` -/
def initializeFirst (s : Smem) (p : ProcId) (g : Nat) : Smem :=
  let r := s.seg g
  { s.setSeg g { r with
      size := true
      processes := Function.update (fun _ => none) 0 (some p)
      count := 1
      firsts := r.firsts + 1 } with
    slotConfig := Function.update s.slotConfig p (some 0) }

/-- `smem_initialize_rest`, and the increment of `count`; `none` if it
aborts. -/
def initializeRest (s : Smem) (p : ProcId) (g : Nat) : Option Smem :=
  let r := { s.seg g with count := (s.seg g).count + 1, rests := (s.seg g).rests + 1 }
  match freeSlot r with
  | some i =>
      some { s.setSeg g { r with processes := Function.update r.processes i (some p) } with
        slotConfig := Function.update s.slotConfig p (some i) }
  | none => if s.slotConfig p = none then none else some (s.setSeg g r)

/-- The exit of a process releases its locks. -/
def abort (s : Smem) (p : ProcId) (g : Nat) : Smem :=
  { (s.setSeg g { s.seg g with lock := none }).setPc p .aborted with
    stat := Function.update s.stat p.pid none }

def setLock (s : Smem) (g : Nat) (lock : Option ProcId) : Smem :=
  s.setSeg g { s.seg g with lock := lock }

/-- The decrement of `count` in `segment_unregister`, with
`segment_unregister_last`, up to the `munmap`. -/
def unregisterSlot (s : Smem) (p : ProcId) (g : Nat) : Smem :=
  let r := s.seg g
  let zero := r.count - 1 = 0
  s.setSeg g { r with
    count := r.count - 1
    processes := match s.slotConfig p with
      | some i => Function.update r.processes i none
      | none => r.processes
    zeroed := if zero then r.zeroed ++ [p] else r.zeroed
    freed := if zero then r.freed ++ [p] else r.freed }

/-- The next step of process `p` in `segment_create` or
`segment_unregister`. -/
def procStep (s : Smem) (p : ProcId) : Option Smem :=
  match s.pc p with
  | .idle | .attached _ | .aborted => none
  | .opening =>
      -- `shm_open` with `O_CREAT`
      match s.linked with
      | some g => some (s.setPc p (.opened g))
      | none => some { s.setPc p (.opened s.next) with linked := some s.next, next := s.next + 1 }
  | .opened g => if (s.seg g).lock = none then some ((s.setLock g (some p)).setPc p (.locked g)) else none
  | .locked g =>
      -- `st_nlink` and `st_size`
      if s.linked ≠ some g then some (s.setPc p (.retry g))
      else if (s.seg g).size then some (s.setPc p (.checking g 0))
      else some (s.setPc p (.first g))
  | .checking g i =>
      if i < maxPids then
        match (s.seg g).processes i with
        | none => some (s.setPc p (.checking g (i + 1)))
        | some q => if s.Alive q then some (s.setPc p (.checking g (i + 1))) else some (s.setPc p (.stale g))
      else some (s.setPc p (.rest g))
  | .stale g =>
      if s.linked = none then some (s.abort p g) else some ((s.shmUnlink p).setPc p (.retry g))
  | .retry g => some ((s.setLock g none).setPc p .opening)
  | .first g => some ((s.initializeFirst p g).setPc p (.returning g))
  | .rest g =>
      match s.initializeRest p g with
      | some s' => some (s'.setPc p (.returning g))
      | none => some (s.abort p g)
  | .returning g => some ((s.setLock g none).setPc p (.attached g))
  | .closing g =>
      if (s.seg g).lock = none then some ((s.setLock g (some p)).setPc p (.leaving g)) else none
  | .leaving g =>
      some ((s.unregisterSlot p g).setPc p (if (s.seg g).count - 1 = 0 then .last g else .left g))
  | .last g => some ((s.shmUnlink p).setPc p (.left g))
  | .left g => some ((s.setLock g none).setPc p .idle)

def step (s : Smem) : SmemOp → Option Smem
  | .spawn p parent =>
      if p ∉ s.used ∧ s.stat p.pid = none ∧ parent.all (fun q => s.Alive q) then
        some { s with
          stat := Function.update s.stat p.pid (some p.start)
          used := p :: s.used
          slotConfig := Function.update s.slotConfig p (parent.bind s.slotConfig) }
      else none
  | .create p =>
      if s.Alive p ∧ s.pc p = .idle then
        some { s.setPc p .opening with
          deadAtCall := Function.update s.deadAtCall p (s.used.filter fun q => ¬ s.Alive q) }
      else none
  | .unregister p =>
      match s.pc p with
      | .attached g => if s.Alive p then some (s.setPc p (.closing g)) else none
      | _ => none
  | .die p =>
      if s.Alive p ∧ (s.pc p).outside then
        some { s with stat := Function.update s.stat p.pid none }
      else none
  | .step p => if s.Alive p then s.procStep p else none

/-! ## The life of a segment -/

/-- The number of occupied slots. -/
def occupied (processes : Nat → Option ProcId) : Nat :=
  ((Finset.range maxPids).filter fun i => (processes i).isSome).card

/-- No process that is registered in segment `g` has died. -/
def NoneDied (s : Smem) (g : Nat) : Prop := ∀ p, (s.pc p).registered = some g → s.Alive p

/-- The step does not run `smem_initialize_rest` without a free slot in a
process that has a slot from an earlier registration. -/
def SlotFree (s : Smem) : SmemOp → Prop
  | .step p =>
      match s.pc p with
      | .rest g => freeSlot (s.seg g) ≠ none ∨ s.slotConfig p = none
      | _ => True
  | _ => True

instance (s : Smem) : (op : SmemOp) → Decidable (s.SlotFree op)
  | .step p =>
      match h : s.pc p with
      | .rest g =>
          decidable_of_iff (freeSlot (s.seg g) ≠ none ∨ s.slotConfig p = none) (by simp [SlotFree, h])
      | .idle | .opening | .opened _ | .locked _ | .checking _ _ | .stale _ | .retry _ | .first _
      | .returning _ | .attached _ | .closing _ | .leaving _ | .last _ | .left _ | .aborted =>
          isTrue (by simp [SlotFree, h])
  | .spawn _ _ | .create _ | .unregister _ | .die _ => isTrue trivial

end Smem

end Nosv
