import Nosv.Lib.HashTable
import Nosv.Lib.Run

/-!
# The affinity that a thread sees

`support/affinity.c`: nOS-V binds the threads that are attached to it to
CPUs of its choice and keeps the affinity that the user gave them in their
workers. The interposed `sched_setaffinity`, `sched_getaffinity`,
`pthread_setaffinity_np` and `pthread_getaffinity_np` look the thread up in
two hash tables and go to the worker, or to the kernel if there is none.

A step is one section under the spinlock, or one of the steps of
`nosv_attach` and `nosv_detach` around these sections. The compatibility
support is on, and a thread that attaches is not attached already; the
calls that nest inside only count.

The kernel has masks of one size. It extends a shorter mask that it is
given, drops what it has no room for, and does not let a mask be read into
fewer bytes. `affinity_support_init` reads one into a `cpu_set_t` and
aborts if that fails, so a `cpu_set_t` holds whatever the kernel has.

`last` is what a register for each thread would hold: the last mask that
was set on the thread, or the one it was created with.
-/

namespace Nosv

open Run

/-- A mask is given by its bytes. -/
abbrev Mask := List UInt8

namespace Mask

def byte (m : Mask) (i : Nat) : UInt8 := m.getD i 0

/-- The mask truncated or zero-extended to `g` bytes. -/
def resize (m : Mask) (g : Nat) : Mask := m.take g ++ List.replicate (g - m.length) 0

/-- The masks differ in trailing zeros at most. -/
def Same (m m' : Mask) : Prop := ∀ i, m.byte i = m'.byte i

/-- All CPUs of the mask are in its first `g` bytes. -/
def Fits (m : Mask) (g : Nat) : Prop := ∀ b ∈ m.drop g, b = 0

instance (m : Mask) (g : Nat) : Decidable (m.Fits g) := inferInstanceAs (Decidable (∀ _ ∈ _, _))

/-- `CPU_COPY_S` -/
def cpuCopyS (g : Nat) (src : Mask) : Mask :=
  if g ≤ src.length then src.take g else src ++ List.replicate (g - src.length) 0

end Mask

/-- `sizeof(cpu_set_t)`, the value of `original_affinity_size` -/
def originalAffinitySize : Nat := 128

/-- The fields of `nosv_worker_t` that hold the affinity and say whose it is.
The mask has `original_affinity_size` bytes. -/
structure AffinityWorker where
  tid : Nat
  kthread : Nat
  cpu : Option Nat
  originalAffinity : Mask

/-- Where a thread is: outside of nOS-V; in `nosv_attach` before
`affinity_support_register_worker` and after it; blocked; running a task; in
`nosv_detach` after `affinity_support_unregister_worker`. -/
inductive AffinityPc where
  | outside
  | creating
  | submitting
  | blocked
  | attached
  | leaving
  deriving DecidableEq

namespace AffinityPc

/-- The worker of the thread is in the hash tables. -/
def registered : AffinityPc → Bool
  | submitting | blocked | attached => true
  | _ => false

/-- The thread runs code of the user. -/
def user : AffinityPc → Bool
  | outside | attached => true
  | _ => false

end AffinityPc

/-- How a call names its target: by the tid, with `0` for the caller, or by
the `pthread_t`. -/
inductive AffinityHandle where
  | tid (pid : Nat)
  | pthread (thread : Nat)
  deriving DecidableEq

/-- The system calls: the bytes of a mask in the kernel, and the sizes with
which a mask can be read. -/
structure AffinityKernel where
  size : Nat
  accepts : Nat → Bool
  /-- `EINVAL` for a size smaller than the mask of the kernel -/
  whole : ∀ g, accepts g = true → size ≤ g

namespace AffinityKernel

def store (k : AffinityKernel) (mask : Mask) : Mask := mask.resize k.size

/-- `none` is an error. -/
def read (k : AffinityKernel) (mask : Mask) (g : Nat) : Option Mask :=
  if k.accepts g = true then some (mask.resize g) else none

end AffinityKernel

/-- The system calls, the hash function, the `cpuset` of each CPU, and what
`malloc` leaves in a buffer. -/
structure AffinityEnv where
  sys : AffinityKernel
  hash : Nat → Nat
  cpuset : Nat → Mask
  malloc : Mask

/-- The threads of a process, with the ids of those that are live, the
kernel, and the state of `affinity.c`. -/
structure AffinityState where
  live : List Nat
  tid : Nat → Nat
  pthread : Nat → Nat
  kernel : Nat → Mask
  pc : Nat → AffinityPc
  current : Nat → Option Nat
  worker : Nat → AffinityWorker
  next : Nat
  htTid : HashTable Nat Nat Nat
  htPthread : HashTable Nat Nat Nat
  last : Nat → Mask

/-- A thread is created with a mask, or ends; the steps of `nosv_attach`,
of `nosv_detach`, and of a worker that blocks and is woken on a CPU; a call
that sets an affinity. -/
inductive AffinityOp where
  | spawn (t tid pthread : Nat) (mask : Mask)
  | exit (t : Nat)
  | create (t : Nat)
  | fail (t : Nat)
  | register (t : Nat)
  | block (t : Nat)
  | wake (t cpu : Nat)
  | unregister (t : Nat)
  | free (t : Nat)
  | set (caller : Nat) (handle : AffinityHandle) (mask : Mask)

namespace AffinityState

variable (env : AffinityEnv)

def start : AffinityState where
  live := []
  tid _ := 0
  pthread _ := 0
  kernel _ := []
  pc _ := .outside
  current _ := none
  worker _ := ⟨0, 0, none, []⟩
  next := 0
  htTid := .empty
  htPthread := .empty
  last _ := []

/-- `affinity_support_init`; `none` if it aborts. -/
def affinitySupportInit : Option AffinityState :=
  -- the mask that is read is for the threads that nOS-V creates itself
  if env.sys.accepts originalAffinitySize = true then some start else none

/-- The thread that the kernel finds. -/
def target (s : AffinityState) (caller : Nat) : AffinityHandle → Option Nat
  | .tid pid =>
      if pid = 0 then (if caller ∈ s.live then some caller else none)
      else s.live.find? fun t => s.tid t = pid
  | .pthread thread => s.live.find? fun t => s.pthread t = thread

/-- The worker that the interposed functions find. -/
def findWorker (s : AffinityState) (caller : Nat) : AffinityHandle → Option Nat
  | .tid pid => if pid ≠ 0 then s.htTid.search env.hash pid else s.current caller
  | .pthread thread =>
      if s.pthread caller ≠ thread then s.htPthread.search env.hash thread else s.current caller

/-- The kernel sets the affinity of a thread. -/
def setKernel (s : AffinityState) (t : Nat) (mask : Mask) : AffinityState :=
  { s with kernel := Function.update s.kernel t (env.sys.store mask) }

def setPc (s : AffinityState) (t : Nat) (pc : AffinityPc) : AffinityState :=
  { s with pc := Function.update s.pc t pc }

def setWorker (s : AffinityState) (w : Nat) (worker : AffinityWorker) : AffinityState :=
  { s with worker := Function.update s.worker w worker }

/-- `worker_setaffinity` -/
def workerSetaffinity (worker : AffinityWorker) (mask : Mask) : AffinityWorker :=
  if mask.length ≤ worker.originalAffinity.length then
    { worker with
      originalAffinity :=
        mask ++ List.replicate (worker.originalAffinity.length - mask.length) 0 }
  else { worker with originalAffinity := mask }

/-- `worker_getaffinity` -/
def workerGetaffinity (worker : AffinityWorker) (g : Nat) : Mask :=
  Mask.cpuCopyS g worker.originalAffinity

/-- `sched_getaffinity` and `pthread_getaffinity_np`; `none` is an error. -/
def getaffinity (s : AffinityState) (caller : Nat) (handle : AffinityHandle) (g : Nat) : Option Mask :=
  match s.findWorker env caller handle with
  | some w => some (workerGetaffinity (s.worker w) g)
  | none => (s.target caller handle).bind fun t => env.sys.read (s.kernel t) g

/-- `sched_setaffinity` and `pthread_setaffinity_np` -/
def setaffinity (s : AffinityState) (caller : Nat) (handle : AffinityHandle) (mask : Mask) :
    AffinityState :=
  match s.findWorker env caller handle with
  | some w => s.setWorker w (workerSetaffinity (s.worker w) mask)
  | none =>
      match s.target caller handle with
      | some t => s.setKernel env t mask
      | none => s

/-- `worker_create_external` -/
def createExternal (s : AffinityState) (t : Nat) : AffinityState :=
  { s.setWorker s.next ⟨s.tid t, s.pthread t, none, []⟩ with
    current := Function.update s.current t (some s.next)
    next := s.next + 1 }

/-- `affinity_support_register_worker` of an external worker, by thread `t` -/
def registerWorker (s : AffinityState) (t w : Nat) : AffinityState :=
  let mask := (env.sys.read (s.kernel t) originalAffinitySize).getD env.malloc
  { s.setWorker w { s.worker w with originalAffinity := mask } with
    htTid := s.htTid.insert env.hash (s.worker w).tid w
    htPthread := s.htPthread.insert env.hash (s.worker w).kthread w }

/-- The binding of a worker in `worker_wake_internal` -/
def wakeInternal (s : AffinityState) (w cpu : Nat) : AffinityState :=
  let bound :=
    if (s.worker w).cpu ≠ some cpu then
      match s.live.find? fun t => s.tid t = (s.worker w).tid with
      | some t => s.setKernel env t (env.cpuset cpu)
      | none => s
    else s
  bound.setWorker w { s.worker w with cpu := some cpu }

/-- `affinity_support_unregister_worker` with `restore`, by thread `t`;
`none` if it aborts. -/
def unregisterWorker (s : AffinityState) (t w : Nat) : Option AffinityState :=
  match s.htTid.remove env.hash (s.worker w).tid, s.htPthread.remove env.hash (s.worker w).kthread with
  | some htTid, some htPthread =>
      some { s.setKernel env t (s.worker w).originalAffinity with htTid := htTid, htPthread := htPthread }
  | _, _ => none

def step (s : AffinityState) : AffinityOp → Option AffinityState
  | .spawn t tid pthread mask =>
      if t ∉ s.live ∧ tid ≠ 0 ∧ pthread ≠ 0 ∧ (∀ u ∈ s.live, s.tid u ≠ tid ∧ s.pthread u ≠ pthread) then
        some { s.setKernel env t mask with
          live := t :: s.live
          tid := Function.update s.tid t tid
          pthread := Function.update s.pthread t pthread
          last := Function.update s.last t (env.sys.store mask) }
      else none
  | .exit t =>
      if t ∈ s.live ∧ s.pc t = .outside then
        some { s with
          live := s.live.filter (· ≠ t)
          tid := Function.update s.tid t 0
          pthread := Function.update s.pthread t 0 }
      else none
  | .create t =>
      if t ∈ s.live ∧ s.pc t = .outside then some ((s.createExternal t).setPc t .creating) else none
  | .fail t =>
      if s.pc t = .creating then
        some { s.setPc t .outside with current := Function.update s.current t none }
      else none
  | .register t =>
      match s.pc t, s.current t with
      | .creating, some w => some ((s.registerWorker env t w).setPc t .submitting)
      | _, _ => none
  | .block t =>
      if s.pc t = .submitting ∨ s.pc t = .attached then some (s.setPc t .blocked) else none
  | .wake t cpu =>
      match s.pc t, s.current t with
      | .blocked, some w => some ((s.wakeInternal env w cpu).setPc t .attached)
      | _, _ => none
  | .unregister t =>
      match s.pc t, s.current t with
      | .attached, some w => (s.unregisterWorker env t w).map fun s' => s'.setPc t .leaving
      | _, _ => none
  | .free t =>
      if s.pc t = .leaving then
        some { s.setPc t .outside with current := Function.update s.current t none }
      else none
  | .set caller handle mask =>
      if caller ∈ s.live ∧ (s.pc caller).user then
        match s.target caller handle with
        | some t => some { s.setaffinity env caller handle mask with last := Function.update s.last t mask }
        | none => some (s.setaffinity env caller handle mask)
      else none

/-! ## The register of a thread -/

/-- A call that names thread `t` can be made: by another thread, or by `t`
itself while it runs code of the user. -/
def CanName (s : AffinityState) (caller : Nat) (handle : AffinityHandle) (t : Nat) : Prop :=
  s.target caller handle = some t ∧ (caller = t → (s.pc t).user)

/-- Every call that asks for the affinity of a thread, however it names it,
gets what its register holds, unless it goes to the kernel with a size that
the kernel does not accept. -/
def Registers (s : AffinityState) : Prop :=
  ∀ caller handle t g, s.CanName caller handle t →
    s.getaffinity env caller handle g =
      if (s.pc t).registered = true ∨ env.sys.accepts g = true then some ((s.last t).resize g) else none

/-- The thread whose affinity the step sets. -/
def sets (s : AffinityState) : AffinityOp → Option Nat
  | .set caller handle _ => s.target caller handle
  | _ => none

/-- From `s` to `s'` the affinity of every thread is what it was, as all
calls see it, but for the thread whose affinity is set. -/
def Keeps (s : AffinityState) (op : AffinityOp) (s' : AffinityState) : Prop :=
  ∀ t ∈ s.live, s.sets op ≠ some t → ∀ caller handle g, s.CanName caller handle t →
    s'.CanName caller handle t → ∀ mask ∈ s.getaffinity env caller handle g,
      ∀ mask' ∈ s'.getaffinity env caller handle g, mask' = mask

/-- `nosv_detach` does not abort. -/
def Detaches (s : AffinityState) : AffinityOp → Prop
  | .unregister t => s.pc t = .attached → (s.step env (.unregister t)).isSome
  | _ => True

/-- The kernel has room for the masks that it is given: by a call that
finds no worker, and by a thread that detaches. -/
def Stores (s : AffinityState) : AffinityOp → Prop
  | .set caller handle mask => s.findWorker env caller handle = none → mask.Fits env.sys.size
  | .unregister t => ∀ w ∈ s.current t, (s.worker w).originalAffinity.Fits env.sys.size
  | _ => True

instance (s : AffinityState) : ∀ op, Decidable (s.Stores env op)
  | .set _ _ _ => inferInstanceAs (Decidable (_ → _))
  | .unregister _ => by dsimp only [Stores]; infer_instance
  | .spawn _ _ _ _ | .exit _ | .create _ | .fail _ | .register _ | .block _ | .wake _ _ | .free _ =>
      isTrue trivial

end AffinityState

/-! ## Masks -/

namespace Mask

variable {m m' : Mask} {g i : Nat}

theorem byte_of_lt (h : i < m.length) : m.byte i = m[i] := by
  rw [byte, List.getD, List.getElem?_eq_getElem h, Option.getD_some]

theorem byte_of_le (h : m.length ≤ i) : m.byte i = 0 := by
  rw [byte, List.getD, List.getElem?_eq_none h, Option.getD_none]

theorem resize_eq_map : m.resize g = (List.range g).map m.byte := by
  refine List.ext_getElem (by simp [resize]; omega) fun i hi _ => ?_
  have hig : i < g := by simp [resize] at hi; omega
  rw [List.getElem_map, List.getElem_range]
  by_cases him : i < m.length
  · have hmin : i < min g m.length := by omega
    simp [resize, byte_of_lt him, hmin]
  · have hmin : ¬ i < min g m.length := by omega
    simp [resize, byte_of_le (Nat.le_of_not_lt him), List.getElem_append, hmin]

theorem cpuCopyS_eq : cpuCopyS g m = m.resize g := by
  unfold cpuCopyS resize
  split
  · rw [Nat.sub_eq_zero_of_le ‹_›, List.replicate_zero, List.append_nil]
  · rw [List.take_of_length_le (by omega)]

theorem Same.resize_eq (h : m.Same m') (g : Nat) : m.resize g = m'.resize g := by
  rw [resize_eq_map, resize_eq_map]
  exact List.map_congr_left fun i _ => h i

theorem byte_resize : (m.resize g).byte i = if i < g then m.byte i else 0 := by
  rw [resize_eq_map, byte]
  by_cases hi : i < g <;> simp [hi]

theorem same_append_replicate (k : Nat) : Same (m ++ List.replicate k 0) m := by
  intro i
  by_cases him : i < m.length
  · rw [byte, byte, List.getD, List.getD, List.getElem?_append_left him]
  · rw [byte_of_le (Nat.le_of_not_lt him), byte, List.getD,
      List.getElem?_append_right (Nat.le_of_not_lt him), List.getElem?_replicate]
    split <;> rfl

@[simp] theorem length_resize : (m.resize g).length = g := by
  simp only [resize, List.length_append, List.length_take, List.length_replicate]
  omega

theorem fits_of_length_le (h : m.length ≤ g) : m.Fits g := by
  intro b hb
  rw [List.drop_of_length_le h] at hb
  exact absurd hb List.not_mem_nil

/-- Nothing is lost in a resized mask if only zeros are cut off. -/
theorem Fits.same_resize (h : m.Fits g) : (m.resize g).Same m := by
  intro i
  rw [byte_resize]
  split
  · rfl
  · by_cases him : i < m.length
    · rw [byte_of_lt him]
      refine (h _ (List.mem_iff_getElem.mpr ⟨i - g, by simp; omega, ?_⟩)).symm
      simp only [List.getElem_drop]
      congr 1
      omega
    · rw [byte_of_le (Nat.le_of_not_lt him)]

end Mask

end Nosv
