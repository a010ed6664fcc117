import Mathlib.Data.Int.Basic
import Mathlib.Tactic.Common

/-!
# Task descriptors

`struct nosv_task` as the scheduler and the API functions see it. Tasks
are named by `TaskId` and live in a table `TaskId → Task`; a pointer to
task `t`, where the code stores one in a machine word, is `ptr t`.

The three members `yield`, `suspend_args` and `tree_hook.rbe_left` of the
source share one storage word. They are one field here, `word`, and the
accessors `Task.yield` and `Task.suspendArgs` read it under their own
names.

Machine integers keep their width where a wrap can be observed:
`scheduled_count` and `event_count` are reduced modulo `2 ^ 32`
(`u32`), `blocking_count` is an `int32_t` (`i32`), the `size_t` counters
of the scheduler are reduced modulo `2 ^ 64` (`sizeT`), and so is
`deadline_t`.
-/

namespace Nosv

abbrev TaskId := Nat

/-- The value of a `size_t` after an assignment of `x`. -/
def sizeT (x : Int) : Int := x % 18446744073709551616

/-- The value of a `uint32_t` after an assignment of `n`. -/
def u32 (n : Nat) : Nat := n % 4294967296

theorem u32_of_lt {n : Nat} (h : n < 4294967296) : u32 n = n := Nat.mod_eq_of_lt h

/-- The value of a `uint64_t` after an assignment of `n`. -/
def u64 (n : Nat) : Nat := n % 18446744073709551616

theorem u64_of_lt {n : Nat} (h : n < 18446744073709551616) : u64 n = n := Nat.mod_eq_of_lt h

/-- The value of an `int32_t` after an assignment of `x`. -/
def i32 (x : Int) : Int := Int.bmod x 4294967296

theorem i32_of_fits {x : Int} (hlow : -2147483648 ≤ x) (hhigh : x < 2147483648) : i32 x = x :=
  Int.bmod_eq_of_le_mul_two (by omega) (by omega)

/-- The address of a task, as a machine word; never `NULL`. -/
def ptr (t : TaskId) : Nat := t + 1

/-! ## Attributes -/

/-- `nosv_affinity_level_t` -/
inductive AffinityLevel where
  | none
  | cpu
  | numa
  | userComplex
  deriving DecidableEq, Repr

/-- `nosv_affinity_type_t` -/
inductive AffinityType where
  | preferred
  | strict
  deriving DecidableEq, Repr

structure Affinity where
  level : AffinityLevel
  type : AffinityType
  index : Nat
  deriving DecidableEq, Repr

/-- `deadline_state_t` -/
inductive DeadlineState where
  | none
  | pending
  | waiting
  | ready
  deriving DecidableEq, Repr

/-- The suspend-mode bits of `task->flags`; `none` when all are clear. -/
inductive SuspendMode where
  | none
  | submit
  | timeout
  | event
  deriving DecidableEq, Repr

/-! ## The descriptor -/

structure Task where
  /-- `task->type->pid` -/
  pid : Nat
  priority : Int
  affinity : Affinity
  /-- `atomic_int32_t degree`; negative once the task has been cancelled -/
  degree : Int
  scheduledCount : Nat
  eventCount : Nat
  blockingCount : Int
  deadline : Nat
  deadlineState : DeadlineState
  /-- the union of `yield`, `tree_hook.rbe_left` and `suspend_args` -/
  word : Nat
  /-- `TASK_FLAG_SUSPEND` -/
  suspend : Bool
  /-- `flags & TASK_FLAG_SUSPEND_MODE_MASK` -/
  suspendMode : SuspendMode
  deriving DecidableEq, Repr

namespace Task

def yield (t : Task) : Nat := t.word

def suspendArgs (t : Task) : Nat := t.word

end Task

/-- `task_get_degree` -/
def taskGetDegree (t : Task) : Int := t.degree

/-- `task_is_parallel` -/
def taskIsParallel (t : Task) : Bool := t.degree ≠ 1 ∧ t.degree ≠ -1

/-- What `nosv_create_internal` stores in a fresh descriptor. -/
def nosvCreateInternal (pid : Nat) (affinity : Affinity) : Task where
  pid := pid
  priority := 0
  affinity := affinity
  degree := 1
  scheduledCount := 0
  eventCount := 1
  blockingCount := 1
  deadline := 0
  deadlineState := .none
  word := 0
  suspend := false
  suspendMode := .none

/-- `deadline_task_wake_up` -/
def deadlineTaskWakeUp (t : Task) : Task :=
  { t with deadline := 0, deadlineState := .none }

/-! ## The blocking count

A submission takes one away from `blocking_count`, a pause or a suspension
adds one. The count of a task that is to be submitted is one, and from
then on it is at most zero: minus the submissions that nothing has
consumed yet. This reading needs these submissions to fit an `int32_t`;
one more wraps the count around (`CountFits`).
-/

/-- `atomic_fetch_sub(&task->blocking_count, 1) - 1` -/
def countDown (count : Int) : Int := i32 (count - 1)

/-- `atomic_fetch_add(&task->blocking_count, 1) + 1` -/
def countUp (count : Int) : Int := i32 (count + 1)

/-- A submission does not wrap the count around. -/
def CountFits (count : Int) : Prop := -2147483648 < count

instance (count : Int) : Decidable (CountFits count) := inferInstanceAs (Decidable (_ < _))

/-- The count of a task that has been submitted and does not block. -/
structure CountTaken (count : Int) : Prop where
  low : -2147483648 ≤ count
  le : count ≤ 0

instance (count : Int) : Decidable (CountTaken count) :=
  decidable_of_iff (-2147483648 ≤ count ∧ count ≤ 0) ⟨fun h => ⟨h.1, h.2⟩, fun h => ⟨h.low, h.le⟩⟩

@[simp] theorem countDown_one : countDown 1 = 0 := rfl

theorem countTaken_zero : CountTaken 0 := ⟨by decide, Int.le_refl 0⟩

/-- Submissions beyond the first one are counted until they wrap around. -/
theorem countDown_i32_neg (n : Nat) : countDown (i32 (-n)) = i32 (-(n + 1 : Nat)) := by
  unfold countDown i32
  rw [Int.bmod_sub_bmod]
  congr 1
  omega

theorem i32_neg_ne_zero {n : Nat} (hpos : 0 < n) (hlt : n < 4294967296) : i32 (-n) ≠ 0 := by
  intro hzero
  have := Int.dvd_of_bmod_eq_zero hzero
  omega

theorem countDown_eq {count : Int} (hfits : CountFits count) (hle : count ≤ 1) :
    countDown count = count - 1 := by
  unfold CountFits at hfits
  exact i32_of_fits (by omega) (by omega)

namespace CountTaken

variable {count : Int}

theorem up (h : CountTaken count) : countUp count = count + 1 := by
  have hlow := h.low
  have hle := h.le
  exact i32_of_fits (by omega) (by omega)

theorem down_eq (h : CountTaken count) (hfits : CountFits count) : countDown count = count - 1 := by
  have hle := h.le
  exact countDown_eq hfits (by omega)

/-- Only the first submission reaches zero. -/
theorem down_ne (h : CountTaken count) : countDown count ≠ 0 := by
  intro hzero
  have hdvd := Int.dvd_of_bmod_eq_zero hzero
  have hlow := h.low
  have hle := h.le
  omega

theorem down (h : CountTaken count) (hfits : CountFits count) : CountTaken (countDown count) := by
  have hle := h.le
  rw [h.down_eq hfits]
  unfold CountFits at hfits
  exact ⟨by omega, by omega⟩

/-- A pause that finds a submission takes it and does not block. -/
theorem up_taken (h : CountTaken count) (hle : countUp count ≤ 0) : CountTaken (countUp count) := by
  have hlow := h.low
  refine ⟨?_, hle⟩
  rw [h.up]
  omega

/-- A pause that finds none blocks, with the count at one again. -/
theorem up_eq_one (h : CountTaken count) (hpos : 0 < countUp count) : countUp count = 1 := by
  have hle := h.le
  rw [h.up] at hpos ⊢
  omega

theorem up_cases (h : CountTaken count) : CountTaken (countUp count) ∨ countUp count = 1 := by
  by_cases hpos : 0 < countUp count
  · exact Or.inr (h.up_eq_one hpos)
  · exact Or.inl (h.up_taken (Int.not_lt.mp hpos))

end CountTaken

/-! ## Executions still to hand out -/

/-- The executions of a stored task that the scheduler has not handed out
yet: one for an ordinary task, `|degree| - scheduled_count` otherwise. -/
def Task.pending (t : Task) : Int :=
  if t.degree.natAbs = 1 then 1 else t.degree.natAbs - t.scheduledCount

@[simp] theorem pending_deadlineTaskWakeUp (t : Task) :
    (deadlineTaskWakeUp t).pending = t.pending := rfl

theorem taskIsParallel_iff {t : Task} :
    taskIsParallel t = true ↔ t.degree.natAbs ≠ 1 := by
  simp only [taskIsParallel, decide_eq_true_eq]
  omega

theorem pending_of_not_parallel {t : Task} (h : taskIsParallel t = false) :
    t.pending = 1 := by
  have hone : t.degree.natAbs = 1 := by
    by_contra hne
    rw [taskIsParallel_iff.mpr hne] at h
    cases h
  simp [Task.pending, hone]

theorem pending_of_parallel {t : Task} (h : taskIsParallel t = true) :
    t.pending = t.degree.natAbs - t.scheduledCount := by
  simp [Task.pending, taskIsParallel_iff.mp h]

end Nosv
