import Nosv.Lib.Run
import Nosv.Task

/-!
# Nested attach and detach

`nosv_attach` and `nosv_detach` as one external thread calls them. Its
variables are `rt_attach_refcount`, a 32-bit counter that wraps, and
`current_worker`; the registered task types are shared. Whether the two
allocations of an attach succeed is an argument of the call
(`nosv_type_init` and `nosv_create_internal` fail for no other reason
here), and so is what the variable behind `task` holds.

The scheduling of the new task, the affinity and the submit window are left
out: an attach that gets that far returns once a CPU is there.

`attaches` and `detaches` count the calls that succeeded; nothing reads
them.
-/

namespace Nosv

open Run

abbrev TypeId := Nat

/-- The error codes that the two calls return. -/
inductive AttachError where
  | invalidParameter
  | outOfMemory
  | outsideTask
  deriving DecidableEq, Repr

structure Attacher where
  /-- `rt_attach_refcount`, modulo `2 ^ 32` -/
  refcount : Nat
  /-- `current_worker` and its `handle.task` -/
  worker : Option (Option TaskId)
  /-- `task_type_manager->types` -/
  types : List TypeId
  attaches : Nat
  detaches : Nat
  deriving DecidableEq

inductive AttachCall where
  /-- `var` is what the caller's variable holds, `none` for a null pointer;
  then the results of the allocations of the type and of the task -/
  | attach (var : Option (Option TaskId)) (type : Option TypeId) (task : Option TaskId)
  | detach
  deriving DecidableEq

namespace Attacher

/-- `nosv_self` -/
def nosvSelf (s : Attacher) : Option TaskId := s.worker.bind id

/-- `nosv_type_init` for the type of an attached thread. -/
def nosvTypeInit (s : Attacher) (type : Option TypeId) : Except AttachError Attacher :=
  match type with
  | none => .error .outOfMemory
  | some type => .ok { s with types := s.types ++ [type] }

/-- `nosv_attach`: the result, the new state and what the caller's variable
holds then. -/
def nosvAttach (s : Attacher) (var : Option (Option TaskId)) (type : Option TypeId)
    (task : Option TaskId) : Option AttachError × Attacher × Option TaskId :=
  match var with
  | none => (some .invalidParameter, s, none)
  | some old =>
      -- `rt_attach_refcount++`
      let count := s.refcount
      let s := { s with refcount := u32 (s.refcount + 1) }
      if count = 0 then
        match s.nosvTypeInit type with
        | .error e => (some e, s, old)
        | .ok s =>
            -- `worker_create_external`
            let s := { s with worker := some none }
            match task with
            | none =>
                -- `worker_free_external`; the type stays registered
                (some .outOfMemory, { s with worker := none }, old)
            | some t => (none, { s with worker := some (some t), attaches := s.attaches + 1 }, some t)
      else (none, { s with attaches := s.attaches + 1 }, old)

/-- `nosv_detach`; `nosv_type_destroy` does nothing. -/
def nosvDetach (s : Attacher) : Option AttachError × Attacher :=
  match s.nosvSelf with
  | none => (some .outsideTask, s)
  | some _ =>
      -- `--rt_attach_refcount`
      let s := { s with refcount := u32 (s.refcount + 4294967295), detaches := s.detaches + 1 }
      if s.refcount ≠ 0 then (none, s) else (none, { s with worker := none })

def step (s : Attacher) : AttachCall → Option Attacher
  | .attach var type task => some (s.nosvAttach var type task).2.1
  | .detach => some s.nosvDetach.2

def init (types : List TypeId) : Attacher := ⟨0, none, types, 0, 0⟩

/-- The thread is inside a task exactly when more attaches than detaches
have succeeded. -/
def InsideExact (s : Attacher) : Prop := s.nosvSelf.isSome = true ↔ s.detaches < s.attaches

instance (s : Attacher) : Decidable s.InsideExact := inferInstanceAs (Decidable (_ ↔ _))

/-- What is claimed of a call. The second part is the assertion of the
attaches that are not nested. -/
def AttachExact (s : Attacher) : AttachCall → Prop
  | .attach var type task =>
      let (err, s', var') := s.nosvAttach var type task
      s'.InsideExact ∧ (var ≠ none → s.refcount = 0 → s.worker = none)
        ∧ (err = none → var' = s'.nosvSelf)
        ∧ (err ≠ none → s'.refcount = s.refcount ∧ s'.worker = s.worker ∧ s'.types = s.types)
  | .detach => s.nosvDetach.2.InsideExact

instance (s : Attacher) (c : AttachCall) : Decidable (s.AttachExact c) := by
  cases c <;> (dsimp only [AttachExact]; infer_instance)

/-- An attach that is not nested gets its memory, and finds the counter not
wrapped around; one that is nested gets a variable that holds the task
already. -/
def AttachSound (s : Attacher) : AttachCall → Prop
  | .attach none _ _ => True
  | .attach (some old) type task =>
      if s.refcount = 0 then s.worker = none ∧ type.isSome ∧ task.isSome else old = s.nosvSelf
  | .detach => True

instance (s : Attacher) (c : AttachCall) : Decidable (s.AttachSound c) := by
  cases c with
  | attach var type task => cases var <;> (dsimp only [AttachSound]; infer_instance)
  | detach => exact inferInstanceAs (Decidable True)

/-! ## The counter is the nesting depth -/

structure Inv (s : Attacher) (depth : Nat) : Prop where
  attaches : s.attaches = s.detaches + depth
  refcount : s.refcount = u32 depth
  bound : depth ≤ 4294967296
  outside : depth = 0 → s.worker = none
  inside : depth ≠ 0 → ∃ t, s.worker = some (some t)

variable {s s' : Attacher} {depth : Nat}

theorem Inv.insideExact (h : s.Inv depth) : s.InsideExact := by
  have hcount := h.attaches
  unfold InsideExact nosvSelf
  by_cases hd : depth = 0
  · rw [h.outside hd]
    simp
    omega
  · obtain ⟨t, ht⟩ := h.inside hd
    rw [ht]
    simp
    omega

/-- A counter of zero is no nesting at all, or it has wrapped around. -/
theorem Inv.refcount_zero (h : s.Inv depth) : s.refcount = 0 ↔ depth = 0 ∨ depth = 4294967296 := by
  have := h.bound
  rw [h.refcount, u32]
  omega

section Attach

variable (old : Option TaskId) (type : TypeId) (t : TaskId)

theorem nosvAttach_nested (hne : s.refcount ≠ 0) (type : Option TypeId) (task : Option TaskId) :
    s.nosvAttach (some old) type task
      = (none, { s with refcount := u32 (s.refcount + 1), attaches := s.attaches + 1 }, old) := by
  simp only [nosvAttach, if_neg hne]

theorem nosvAttach_first (hzero : s.refcount = 0) :
    s.nosvAttach (some old) (some type) (some t)
      = (none, { s with refcount := 1, types := s.types ++ [type], worker := some (some t),
                        attaches := s.attaches + 1 }, some t) := by
  simp only [nosvAttach, hzero, if_true]
  rfl

/-- Whichever allocation fails, the counter keeps the attach. -/
theorem nosvAttach_fails (hzero : s.refcount = 0) {type : Option TypeId} {task : Option TaskId}
    (hfails : type = none ∨ task = none) :
    (s.nosvAttach (some old) type task).1 = some .outOfMemory
      ∧ (s.nosvAttach (some old) type task).2.1.refcount = 1 := by
  simp only [nosvAttach, hzero, if_true]
  rcases type with - | type
  · exact ⟨rfl, rfl⟩
  · rcases task with - | t
    · exact ⟨rfl, rfl⟩
    · simp at hfails

end Attach

theorem Inv.nested (h : s.Inv depth) (hne : s.refcount ≠ 0) (old : Option TaskId)
    (type : Option TypeId) (task : Option TaskId) :
    (s.nosvAttach (some old) type task).2.1.Inv (depth + 1) := by
  have hzero := h.refcount_zero
  have hbound := h.bound
  have hcount := h.attaches
  obtain ⟨t, ht⟩ := h.inside (by omega)
  rw [nosvAttach_nested old hne]
  refine ⟨?_, ?_, by omega, by omega, fun _ => ⟨t, ht⟩⟩
  · simp only
    omega
  · simp only [h.refcount, u32]
    omega

theorem Inv.first (h : s.Inv depth) (hzero : s.refcount = 0) (hout : s.worker = none)
    (old : Option TaskId) (type : TypeId) (t : TaskId) :
    (s.nosvAttach (some old) (some type) (some t)).2.1.Inv 1 := by
  have hdepth : depth = 0 := by
    by_contra hd
    obtain ⟨u, hu⟩ := h.inside hd
    rw [hout] at hu
    cases hu
  have hcount := h.attaches
  rw [nosvAttach_first old type t hzero]
  refine ⟨?_, rfl, by omega, by omega, fun _ => ⟨t, rfl⟩⟩
  simp only
  omega

theorem Inv.detach (h : s.Inv depth) : ∃ d, s.nosvDetach.2.Inv d := by
  have hcount := h.attaches
  have hbound := h.bound
  unfold nosvDetach nosvSelf
  by_cases hd : depth = 0
  · refine ⟨depth, ?_⟩
    rw [h.outside hd]
    exact h
  · obtain ⟨t, ht⟩ := h.inside hd
    refine ⟨depth - 1, ?_⟩
    rw [ht]
    have hpred : u32 (u32 depth + 4294967295) = u32 (depth - 1) := by
      unfold u32
      omega
    simp only [Option.bind_some, id_eq, h.refcount, hpred]
    by_cases hlast : u32 (depth - 1) = 0
    · have hone : depth = 1 := by
        unfold u32 at hlast
        omega
      subst hone
      simp only [ne_eq, hlast, not_true_eq_false, if_false]
      exact ⟨by simp only; omega, hlast.symm, by omega, fun _ => rfl, fun hne => absurd rfl hne⟩
    · have hpos : depth - 1 ≠ 0 := by
        rintro hzero
        rw [hzero] at hlast
        exact hlast rfl
      simp only [ne_eq, hlast, not_false_eq_true, if_true]
      exact ⟨by simp only; omega, rfl, by omega, fun hzero => absurd hzero hpos, fun _ => ⟨t, rfl⟩⟩

/-! ## Runs -/

theorem inv_step {c : AttachCall} (hc : s.AttachSound c) (hstep : s.step c = some s')
    (h : ∃ d, s.Inv d) : ∃ d, s'.Inv d := by
  obtain ⟨depth, h⟩ := h
  cases c with
  | detach =>
      obtain rfl := Option.some.inj hstep
      exact h.detach
  | attach var type task =>
      obtain rfl := Option.some.inj hstep
      cases var with
      | none => exact ⟨depth, h⟩
      | some old =>
          simp only [AttachSound] at hc
          by_cases hzero : s.refcount = 0
          · rw [if_pos hzero] at hc
            obtain ⟨hout, htype, htask⟩ := hc
            obtain ⟨type, rfl⟩ := Option.isSome_iff_exists.mp htype
            obtain ⟨t, rfl⟩ := Option.isSome_iff_exists.mp htask
            exact ⟨1, h.first hzero hout old type t⟩
          · exact ⟨depth + 1, h.nested hzero old type task⟩

theorem attachExact_iff {var : Option (Option TaskId)} {type : Option TypeId}
    {task : Option TaskId} : s.AttachExact (.attach var type task)
      ↔ (s.nosvAttach var type task).2.1.InsideExact
        ∧ (var ≠ none → s.refcount = 0 → s.worker = none)
        ∧ ((s.nosvAttach var type task).1 = none
          → (s.nosvAttach var type task).2.2 = (s.nosvAttach var type task).2.1.nosvSelf)
        ∧ ((s.nosvAttach var type task).1 ≠ none
          → (s.nosvAttach var type task).2.1.refcount = s.refcount
            ∧ (s.nosvAttach var type task).2.1.worker = s.worker
            ∧ (s.nosvAttach var type task).2.1.types = s.types) := Iff.rfl

theorem Inv.exact_iff (h : s.Inv depth) (c : AttachCall) : s.AttachExact c ↔ s.AttachSound c := by
  cases c with
  | detach =>
      obtain ⟨d, hd⟩ := h.detach
      exact iff_of_true hd.insideExact trivial
  | attach var type task =>
  rw [attachExact_iff]
  cases var with
  | none =>
      refine iff_of_true ⟨h.insideExact, fun hvar => absurd rfl hvar, fun herr => ?_,
        fun _ => ⟨rfl, rfl, rfl⟩⟩ trivial
      cases herr
  | some old =>
  by_cases hzero : s.refcount = 0
  · simp only [AttachSound, if_pos hzero]
    by_cases hfails : type = none ∨ task = none
    · obtain ⟨herr, hcount⟩ := nosvAttach_fails old hzero hfails
      refine iff_of_false (fun hex => ?_) fun hok => ?_
      · have hkeep := hex.2.2.2 (by rw [herr]; exact Option.some_ne_none _)
        rw [hcount, hzero] at hkeep
        exact absurd hkeep.1 (by decide)
      · rcases hfails with rfl | rfl
        · exact absurd hok.2.1 (by decide)
        · exact absurd hok.2.2 (by decide)
    · rw [not_or] at hfails
      obtain ⟨type, rfl⟩ := Option.ne_none_iff_exists'.mp hfails.1
      obtain ⟨t, rfl⟩ := Option.ne_none_iff_exists'.mp hfails.2
      simp only [Option.isSome_some, and_true]
      constructor
      · intro hex
        exact hex.2.1 (Option.some_ne_none _) hzero
      · intro hout
        have hinv := h.first hzero hout old type t
        refine ⟨hinv.insideExact, fun _ _ => hout, fun _ => ?_, fun herr => ?_⟩
        · rw [nosvAttach_first old type t hzero]
          rfl
        · rw [nosvAttach_first old type t hzero] at herr
          exact absurd rfl herr
  · simp only [AttachSound, if_neg hzero]
    have hinv := h.nested hzero old type task
    rw [nosvAttach_nested old hzero] at hinv ⊢
    constructor
    · intro hex
      exact hex.2.2.1 rfl
    · intro hvar
      exact ⟨hinv.insideExact, fun _ hz => absurd hz hzero, fun _ => hvar, fun herr => absurd rfl herr⟩

theorem inv_init (types : List TypeId) : (init types).Inv 0 :=
  ⟨rfl, rfl, by decide, fun _ => rfl, fun hne => absurd rfl hne⟩

end Attacher

/-- A run of attaches and detaches is as claimed exactly if every attach
that is not nested succeeds in its allocations, and every nested one is
called for a variable that holds the task already. -/
theorem nested_attach_iff (types : List TypeId) (calls : List AttachCall) :
    Along Attacher.step Attacher.AttachExact (.init types) calls
      ↔ Along Attacher.step Attacher.AttachSound (.init types) calls :=
  along_iff_of_invariant (R := fun _ _ => True) (I := fun s => ∃ d, s.Inv d)
    (fun _ _ _ _ hc hstep hinv => Attacher.inv_step hc hstep hinv)
    (fun _ c _ ⟨_, hinv⟩ => hinv.exact_iff c) (along_of_forall_mem fun _ _ _ => trivial)
    ⟨0, Attacher.inv_init types⟩

/-- A thread attaches twice, each time for a variable of its own. And an
attach that finds no memory for its task: the next one succeeds without
attaching the thread, and the type of the first is never taken back. -/
theorem nested_attach_unset :
    ¬ Along Attacher.step Attacher.AttachExact (.init [])
        [.attach (some none) (some 0) (some 0), .attach (some none) none none]
      ∧ ¬ Along Attacher.step Attacher.AttachExact (.init [])
        [.attach (some none) (some 0) none]
      ∧ (run Attacher.step (.init []) [.attach (some none) (some 0) none,
          .attach (some none) (some 1) (some 1)]).map (fun s => (s.attaches, s.nosvSelf, s.types))
        = some (1, none, [0]) := by
  refine ⟨by decide, by decide, by decide⟩

end Nosv
