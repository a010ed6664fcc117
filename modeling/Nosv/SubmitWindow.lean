import Mathlib.Data.List.Count
import Mathlib.Data.List.Forall2
import Nosv.Barrier
import Nosv.Lib.Ring
import Nosv.Lib.Run
import Nosv.Task

/-!
# The submit window

One task that is not parallel, what it submits and when it stops, from the
moment it first runs. With a window of more than one task,
`scheduler_batch_submit` collects what it is given in a group, the circle
of the `list_hook`s of its tasks, and a flush pushes the first task of the
group into the queue of the scheduler. The scheduler later walks along the
circle from that task (`walk`, one round of the loop of
`scheduler_process_ready_task_buffer`); the groups are walked in any order
and each at its own pace.

The hook and the blocking count of a task that is neither in a group that
is still to be walked, nor in the window, nor in the immediate successor
slot of the worker change as they like (`elsewhere`): such a task may run,
block, and be submitted by others. A task that waits can only be submitted
once more (`submitElsewhere`). While the task does not run, the slot
belongs to other tasks (`slot`). The count of the task itself is one of
those that change as they like, so a task that has been unblocked before
it could block is one that is resumed at once. What is claimed of the runs
needs the submissions of a task that waits to fit its count (`Fitting`).

`given` is the history of `scheduler_batch_submit`, and `walked` that of a
group; nothing reads them but the moves of others, whose tasks they tell
apart from those that wait.
-/

namespace Nosv

open Run Ring

/-- A group in the queue of the scheduler: `start` and `iterator` are those
of the loop that walks it. -/
structure PushedGroup where
  start : TaskId
  iterator : TaskId
  walked : List TaskId
  finished : Bool
  deriving DecidableEq

/-- One round of the loop of `scheduler_process_ready_task_buffer`, which
ends where it began. -/
def PushedGroup.walk (g : PushedGroup) (m : Links TaskId) : PushedGroup where
  start := g.start
  iterator := m.next g.iterator
  walked := g.walked ++ [g.iterator]
  finished := m.next g.iterator == g.start

structure SubmitWindow where
  hooks : Links TaskId
  submitWindow : TaskGroup
  submitWindowMaxsize : Nat
  /-- the groups pushed so far, the oldest first -/
  pushed : List PushedGroup
  given : List TaskId

namespace SubmitWindow

/-- `scheduler_submit_internal`; the assertion is that of its callers. -/
def submitInternal (w : SubmitWindow) (t : TaskId) : SubmitWindow :=
  { w with pushed := w.pushed ++ [⟨t, t, [], false⟩] }

/-- `scheduler_submit_single` -/
def submitSingle (w : SubmitWindow) (t : TaskId) : Option SubmitWindow :=
  if w.hooks.inserted t then none else some (w.submitInternal t)

/-- `scheduler_submit_group` -/
def submitGroup (w : SubmitWindow) (group : TaskGroup) : Option SubmitWindow :=
  if group.empty then none else group.headTask.map w.submitInternal

/-- `nosv_flush_submit_window` -/
def flush (w : SubmitWindow) : Option SubmitWindow :=
  if w.submitWindow.empty then some w
  else (w.submitGroup w.submitWindow).map fun w => { w with submitWindow := .init }

/-- `task_group_add` on the window. -/
def add (w : SubmitWindow) (t : TaskId) : SubmitWindow :=
  { w with
    submitWindow := (w.submitWindow.add w.hooks t).1
    hooks := (w.submitWindow.add w.hooks t).2 }

def give (w : SubmitWindow) (t : TaskId) : SubmitWindow := { w with given := w.given ++ [t] }

/-- `scheduler_batch_submit` -/
def batchSubmit (w : SubmitWindow) (t : TaskId) : Option SubmitWindow :=
  if w.submitWindowMaxsize = 1 then (w.give t).submitSingle t
  else if w.submitWindowMaxsize ≤ ((w.give t).add t).submitWindow.count then ((w.give t).add t).flush
  else some ((w.give t).add t)

/-- `nosv_set_submit_window_size`; a size of zero is an error. -/
def setSize (w : SubmitWindow) (n : Nat) : Option SubmitWindow :=
  if n = 0 then some w
  else if n = 1 then { w with submitWindowMaxsize := n }.flush
  else some { w with submitWindowMaxsize := n }

def walk (w : SubmitWindow) (n : Nat) : Option SubmitWindow :=
  match w.pushed[n]? with
  | none => none
  | some g =>
    if g.finished then none
    else some { w with hooks := w.hooks.init g.iterator, pushed := w.pushed.set n (g.walk w.hooks) }

/-- The task has been given more often than it has been walked. -/
def Waits (w : SubmitWindow) (t : TaskId) : Prop :=
  (w.pushed.flatMap PushedGroup.walked).count t < w.given.count t

instance (w : SubmitWindow) (t : TaskId) : Decidable (w.Waits t) :=
  inferInstanceAs (Decidable (_ < _))

def relink (w : SubmitWindow) (t next prev : TaskId) : SubmitWindow :=
  { w with hooks := ⟨Function.update w.hooks.next t next, Function.update w.hooks.prev t prev⟩ }

end SubmitWindow

/-- What the task is doing. -/
inductive Activity where
  | running
  /-- another task runs inside its call of `nosv_submit` -/
  | inlined
  | yielded
  | blocked
  | suspended
  | ended
  | detached
  deriving DecidableEq

/-- It blocks, suspends, ends or detaches. -/
def Activity.Stopped : Activity → Prop
  | .running | .inlined | .yielded => False
  | .blocked | .suspended | .ended | .detached => True

structure SubmitFlags where
  blocking : Bool
  immediate : Bool
  inline : Bool
  deadlineWake : Bool
  deriving DecidableEq

structure Submitter where
  window : SubmitWindow
  blockingCount : TaskId → Int
  /-- `immediate_successor` of the worker that runs the task -/
  immediate : Option TaskId
  schedImmediateSuccessor : Bool
  activity : Activity

inductive SubmitMove where
  | submit (flags : SubmitFlags) (t : TaskId) (parallel : Bool)
  | setSubmitWindowSize (n : Nat)
  | flushSubmitWindow
  | pause
  | waitfor
  | mutexLock (taken : Bool)
  | mutexUnlock (yieldTo : Bool)
  | barrierWait (last : Bool)
  | condWait (timed : Bool)
  | yield (noflush : Bool)
  | schedpoint
  | bodyEnd (suspend : Bool)
  | detach
  | resume
  | slot (u : Option TaskId)
  | walk (n : Nat)
  | elsewhere (t next prev : TaskId) (count : Int)
  | submitElsewhere (t : TaskId)

namespace Submitter

def setWindow (s : Submitter) (w : SubmitWindow) : Submitter := { s with window := w }

def setActivity (s : Submitter) (a : Activity) : Submitter := { s with activity := a }

def setImmediate (s : Submitter) (u : Option TaskId) : Submitter := { s with immediate := u }

def flush (s : Submitter) : Option Submitter := s.window.flush.map s.setWindow

def batchSubmit (s : Submitter) (t : TaskId) : Option Submitter :=
  (s.window.batchSubmit t).map s.setWindow

/-- The flush that comes before the task stops. -/
def flushAnd (s : Submitter) (a : Activity) : Option Submitter := s.flush.map fun s => s.setActivity a

/-! ## Submitting -/

def setCount (s : Submitter) (t : TaskId) (count : Int) : Submitter :=
  { s with blockingCount := Function.update s.blockingCount t count }

def decBlockingCount (s : Submitter) (t : TaskId) : Submitter :=
  s.setCount t (countDown (s.blockingCount t))

/-- `nosv_submit`, a task that no flag says more about -/
def submitPlain (s : Submitter) (t : TaskId) : Option Submitter :=
  if countDown (s.blockingCount t) = 0 then (s.decBlockingCount t).batchSubmit t
  else some (s.decBlockingCount t)

/-- The slot is made free for another task. -/
def vacate (s : Submitter) : Option Submitter :=
  match s.immediate with
  | none => some s
  | some u => s.batchSubmit u

def submitImmediate (s : Submitter) (t : TaskId) : Option Submitter :=
  if countDown (s.blockingCount t) = 0 then
    (s.decBlockingCount t).vacate.map fun s => s.setImmediate (some t)
  else some (s.decBlockingCount t)

/-- The submitted task runs in the place of this one; it must have been
ready for that. -/
def submitInline (s : Submitter) (t : TaskId) : Option Submitter :=
  if countDown (s.blockingCount t) = 0 then (s.decBlockingCount t).flushAnd .inlined else none

/-- `task_pause` -/
def taskPause (s : Submitter) : Option Submitter := s.flushAnd .blocked

def nosvSubmit (s : Submitter) (flags : SubmitFlags) (t : TaskId) (parallel : Bool) :
    Option Submitter :=
  let isImmediate := flags.immediate && s.schedImmediateSuccessor
  if 1 < isImmediate.toNat + flags.blocking.toNat + flags.inline.toNat + flags.deadlineWake.toNat
  then some s
  else if flags.inline && parallel then some s
  else if flags.deadlineWake && parallel then some s
  else if isImmediate && !parallel then s.submitImmediate t
  else if flags.inline then s.submitInline t
  else if flags.deadlineWake then some s
  else if flags.blocking then (s.submitPlain t).bind taskPause
  else s.submitPlain t

/-! ## Stopping -/

def nosvPause (s : Submitter) : Option Submitter := s.flush.bind taskPause

def nosvWaitfor (s : Submitter) : Option Submitter := s.flushAnd .blocked

def nosvMutexLock (s : Submitter) (taken : Bool) : Option Submitter :=
  if taken then s.taskPause else some s

/-- `nosv_mutex_unlock`, which may give its core to the next owner. -/
def nosvMutexUnlock (s : Submitter) (yieldTo : Bool) : Submitter :=
  if yieldTo then s.setActivity .yielded else s

def nosvBarrierWait (s : Submitter) (last : Bool) : Option Submitter :=
  if last then some s else s.taskPause

/-- `nosv_cond_wait` and `nosv_cond_timedwait`, up to the point where the
mutex is locked again. -/
def nosvCondWait (s : Submitter) (timed : Bool) : Option Submitter :=
  if timed then s.nosvWaitfor else s.nosvPause

def nosvYield (s : Submitter) (noflush : Bool) : Option Submitter :=
  if noflush then some (s.setActivity .yielded) else s.flushAnd .yielded

def nosvSchedpoint (s : Submitter) : Option Submitter := s.flushAnd .yielded

/-- The end of `task_execute`. -/
def taskExecute (s : Submitter) (suspend : Bool) : Option Submitter :=
  s.flushAnd (if suspend then .suspended else .ended)

def nosvDetach (s : Submitter) : Option Submitter :=
  (s.vacate.map fun s => s.setImmediate none).bind fun s => s.flushAnd .detached

/-- What the task itself does. -/
def call (s : Submitter) : SubmitMove → Option Submitter
  | .submit flags t parallel => s.nosvSubmit flags t parallel
  | .setSubmitWindowSize n => (s.window.setSize n).map s.setWindow
  | .flushSubmitWindow => s.flush
  | .pause => s.nosvPause
  | .waitfor => s.nosvWaitfor
  | .mutexLock taken => s.nosvMutexLock taken
  | .mutexUnlock yieldTo => some (s.nosvMutexUnlock yieldTo)
  | .barrierWait last => s.nosvBarrierWait last
  | .condWait timed => s.nosvCondWait timed
  | .yield noflush => s.nosvYield noflush
  | .schedpoint => s.nosvSchedpoint
  | .bodyEnd suspend => s.taskExecute suspend
  | .detach => s.nosvDetach
  | _ => none

/-- The task waits to be inserted or to be run from the slot. -/
def Waits (s : Submitter) (t : TaskId) : Prop := s.window.Waits t ∨ s.immediate = some t

instance (s : Submitter) (t : TaskId) : Decidable (s.Waits t) :=
  inferInstanceAs (Decidable (_ ∨ _))

/-- What another task may leave in the slot has been submitted, and not
into this window. -/
def MayHold (s : Submitter) (u : Option TaskId) : Prop :=
  match u with
  | none => True
  | some t => ¬ s.window.Waits t ∧ CountTaken (s.blockingCount t)

instance (s : Submitter) : (u : Option TaskId) → Decidable (s.MayHold u)
  | none => inferInstanceAs (Decidable True)
  | some t => inferInstanceAs (Decidable (¬ s.window.Waits t ∧ CountTaken (s.blockingCount t)))

def step (s : Submitter) : SubmitMove → Option Submitter
  | .resume =>
    if s.activity = .running ∨ s.activity = .detached then none else some (s.setActivity .running)
  | .slot u =>
    if s.activity ≠ .running ∧ s.MayHold u then some (s.setImmediate u) else none
  | .walk n => (s.window.walk n).map s.setWindow
  | .elsewhere t next prev count =>
    if s.Waits t then none else some ((s.setWindow (s.window.relink t next prev)).setCount t count)
  | .submitElsewhere t => if s.Waits t then some (s.decBlockingCount t) else none
  | move => if s.activity = .running then s.call move else none

/-- A submission of a task that waits does not wrap its blocking count
around. -/
def Fitting (s : Submitter) : SubmitMove → Prop
  | .submit _ t _ | .submitElsewhere t => s.Waits t → CountFits (s.blockingCount t)
  | _ => True

instance (s : Submitter) (m : SubmitMove) : Decidable (s.Fitting m) := by
  cases m <;> (dsimp only [Fitting]; infer_instance)

/-- The task begins to run: nothing has been submitted, and what is in the
slot has been submitted by others. -/
structure Begins (s : Submitter) : Prop where
  running : s.activity = .running
  window : s.window.submitWindow = .init
  maxsize : s.window.submitWindowMaxsize = 1
  pushed : s.window.pushed = []
  given : s.window.given = []
  slot : ∀ t, s.immediate = some t → CountTaken (s.blockingCount t)

end Submitter

/-! ## Reading the groups -/

/-- From the hook `it` on, a loop that ends at `start` goes through `l`. -/
inductive Loop (m : Links TaskId) (start : TaskId) : TaskId → List TaskId → Prop
  | last {it : TaskId} (h : m.next it = start) : Loop m start it [it]
  | more {it : TaskId} {l : List TaskId} (h : m.next it ≠ start) (hl : Loop m start (m.next it) l) :
      Loop m start it (it :: l)

/-- What the loop has still to go through. -/
def PushedGroup.Left (g : PushedGroup) (m : Links TaskId) (r : List TaskId) : Prop :=
  if g.finished then r = [] else Loop m g.start g.iterator r

/-- The group is `l`, in the order in which it is walked. -/
def PushedGroup.Reads (g : PushedGroup) (m : Links TaskId) (l : List TaskId) : Prop :=
  ∃ r, g.Left m r ∧ g.walked ++ r = l

def TaskGroup.Holds (group : TaskGroup) (m : Links TaskId) : List TaskId → Prop
  | [] => group = .init
  | h :: l => group = ⟨some h, l.length + 1⟩ ∧ IsRing m h l

/-- The groups pushed so far, in the order in which they are walked, and
then the window, are what has been submitted. -/
def SubmitWindow.InOrder (w : SubmitWindow) : Prop :=
  ∃ groups contents, List.Forall₂ (fun g l => g.Reads w.hooks l) w.pushed groups
    ∧ w.submitWindow.Holds w.hooks contents ∧ groups.flatten ++ contents = w.given

section Loops

variable {m m' : Links TaskId} {start it t : TaskId} {l r : List TaskId}

/-- A loop goes through one list only. -/
theorem Loop.unique (h : Loop m start it l) : Loop m start it r → l = r := by
  induction h generalizing r with
  | last hlast =>
      rintro (_ | ⟨hmore, -⟩)
      · rfl
      · exact absurd hlast hmore
  | more hmore _ ih =>
      rintro (hlast | ⟨-, hrest⟩)
      · exact absurd hlast hmore
      · rw [ih hrest]

theorem PushedGroup.Reads.unique {g : PushedGroup} (hl : g.Reads m l) (hr : g.Reads m r) : l = r := by
  obtain ⟨l', hl', rfl⟩ := hl
  obtain ⟨r', hr', rfl⟩ := hr
  unfold PushedGroup.Left at hl' hr'
  split at hl'
  · rename_i hfin
    rw [if_pos hfin] at hr'
    rw [hl', hr']
  · rename_i hfin
    rw [if_neg hfin] at hr'
    rw [hl'.unique hr']

/-- A loop only reads the hooks it goes through. -/
theorem Loop.frame (h : Loop m start it l) (hsame : ∀ x ∈ l, m'.next x = m.next x) :
    Loop m' start it l := by
  induction h with
  | last hlast => exact .last (by rw [hsame _ List.mem_cons_self, hlast])
  | more hmore _ ih =>
      have hnext := hsame _ List.mem_cons_self
      refine .more (by rwa [hnext]) ?_
      rw [hnext]
      exact ih fun x hx => hsame x (List.mem_cons_of_mem _ hx)

theorem PushedGroup.Left.frame {g : PushedGroup} (h : g.Left m r)
    (hsame : ∀ x ∈ r, m'.next x = m.next x) : g.Left m' r := by
  unfold PushedGroup.Left at h ⊢
  split at h
  · rwa [if_pos ‹_›]
  · rw [if_neg ‹_›]
    exact h.frame hsame

theorem TaskGroup.Holds.frame {group : TaskGroup} (h : group.Holds m l)
    (hsame : ∀ x ∈ l, m.Same m' x) : group.Holds m' l := by
  cases l with
  | nil => exact h
  | cons x l => exact ⟨h.1, h.2.frame hsame⟩

/-- A circle, from one of its hooks on. -/
theorem loop_of_walk :
    ∀ {it : TaskId} {l : List TaskId}, start ∉ l →
      (it :: (l ++ [start])).IsChain (fun x y => m.next x = y) → Loop m start it (it :: l)
  | it, [], _, h => .last (List.isChain_cons_cons.mp h).1
  | it, x :: l, hstart, h => by
      obtain ⟨hnext, hrest⟩ := List.isChain_cons_cons.mp h
      have hx : x ≠ start := fun heq => hstart (heq ▸ List.mem_cons_self)
      refine .more (hnext ▸ hx) ?_
      rw [hnext]
      exact loop_of_walk (fun hin => hstart (List.mem_cons_of_mem x hin)) hrest

theorem Loop.of_isRing (h : IsRing m it l) : Loop m it it (it :: l) :=
  loop_of_walk (List.nodup_cons.mp h.nodup).1 h.walk

/-- One round of the loop. -/
theorem PushedGroup.Left.walk {g : PushedGroup} (h : g.Left m r) (hfin : g.finished = false)
    (hnodup : r.Nodup) :
    ∃ r', r = g.iterator :: r' ∧ (g.walk m).Left (m.init g.iterator) r' := by
  rw [PushedGroup.Left, if_neg (by simp [hfin])] at h
  obtain ⟨hlast⟩ | ⟨hmore, hrest⟩ := h
  · exact ⟨[], rfl, by simp [PushedGroup.Left, PushedGroup.walk, hlast]⟩
  · refine ⟨_, rfl, ?_⟩
    rw [PushedGroup.Left, if_neg (by simp [PushedGroup.walk, hmore])]
    refine hrest.frame fun x hx => (same_init ?_).1
    exact fun heq => (List.nodup_cons.mp hnodup).1 (heq ▸ hx)

theorem TaskGroup.Holds.count {group : TaskGroup} (h : group.Holds m l) : group.count = l.length := by
  cases l with
  | nil => rw [show group = .init from h]; rfl
  | cons x l => rw [h.1]; rfl

/-- `task_group_add` puts the task at the end, whatever its hook was. -/
theorem TaskGroup.Holds.add {group : TaskGroup} (h : group.Holds m l) (ht : t ∉ l) :
    (group.add m t).1.Holds (group.add m t).2 (l ++ [t]) := by
  cases l with
  | nil =>
      rw [show group = .init from h]
      exact ⟨rfl, isRing_init m t⟩
  | cons x l =>
      obtain ⟨rfl, hring⟩ := h
      exact ⟨by simp [TaskGroup.add], hring.addTail ht⟩

theorem TaskGroup.Holds.add_same {group : TaskGroup} (h : group.Holds m l) {x : TaskId} (hx : x ∉ l)
    (hxt : x ≠ t) : m.Same (group.add m t).2 x := by
  cases l with
  | nil =>
      rw [show group = .init from h]
      exact same_init hxt
  | cons y l =>
      obtain ⟨rfl, hring⟩ := h
      exact same_addTail hring hx hxt

end Loops

/-! ## The invariant of the window -/

/-- A pushed group with what its loop has still to go through. -/
abbrev PushedPart := PushedGroup × List TaskId

/-- What waits to be inserted: the rest of each group, and the window. -/
def pending (parts : List PushedPart) (contents : List TaskId) : List TaskId :=
  parts.flatMap Prod.snd ++ contents

namespace SubmitWindow

structure Inv (w : SubmitWindow) (parts : List PushedPart) (contents : List TaskId) : Prop where
  pushed : parts.map Prod.fst = w.pushed
  left : ∀ p ∈ parts, p.1.Left w.hooks p.2
  window : w.submitWindow.Holds w.hooks contents
  given : (parts.flatMap fun p => p.1.walked ++ p.2) ++ contents = w.given
  nodup : (pending parts contents).Nodup
  size : 1 ≤ w.submitWindowMaxsize
  single : w.submitWindowMaxsize = 1 → contents = []

variable {w w' : SubmitWindow} {parts : List PushedPart} {contents : List TaskId} {t : TaskId}

theorem inOrder (h : w.Inv parts contents) : w.InOrder := by
  refine ⟨parts.map fun p => p.1.walked ++ p.2, contents, ?_, h.window, ?_⟩
  · rw [← h.pushed, List.forall₂_map_left_iff, List.forall₂_map_right_iff, List.forall₂_same]
    exact fun p hp => ⟨p.2, h.left p hp, rfl⟩
  · rw [← h.given, List.flatMap_def]

/-- A task waits as often as it is pending. -/
theorem count_given (h : w.Inv parts contents) (t : TaskId) :
    w.given.count t
      = (w.pushed.flatMap PushedGroup.walked).count t + (pending parts contents).count t := by
  have hparts : ∀ parts : List PushedPart, (parts.flatMap fun p => p.1.walked ++ p.2).count t
      = ((parts.map Prod.fst).flatMap PushedGroup.walked).count t
        + (parts.flatMap Prod.snd).count t := by
    intro parts
    induction parts with
    | nil => rfl
    | cons p parts ih =>
        simp only [List.flatMap_cons, List.map_cons, List.count_append] at ih ⊢
        omega
  rw [← h.given, ← h.pushed, pending, List.count_append, List.count_append, hparts]
  omega

theorem waits_iff (h : w.Inv parts contents) : w.Waits t ↔ t ∈ pending parts contents := by
  rw [Waits, count_given h t, ← List.count_pos_iff]
  omega

theorem inv_relink (h : w.Inv parts contents) (ht : t ∉ pending parts contents) (next prev : TaskId) :
    (w.relink t next prev).Inv parts contents := by
  have hsame : ∀ x ∈ pending parts contents, w.hooks.Same (w.relink t next prev).hooks x := by
    intro x hx
    have hne : x ≠ t := fun heq => ht (heq ▸ hx)
    exact ⟨Function.update_of_ne hne _ _, Function.update_of_ne hne _ _⟩
  refine ⟨h.pushed, fun p hp => (h.left p hp).frame fun x hx => (hsame x ?_).1,
    h.window.frame fun x hx => hsame x (List.mem_append_right _ hx), h.given, h.nodup, h.size, h.single⟩
  exact List.mem_append_left _ (List.mem_flatMap.mpr ⟨p, hp, hx⟩)

theorem pending_push (parts : List PushedPart) (start : TaskId) (l : List TaskId) :
    pending (parts ++ [(⟨start, start, [], false⟩, l)]) [] = pending parts l := by
  simp [pending]

/-- A group is pushed and the window is empty after that. -/
theorem inv_push (h : w.Inv parts contents) {start : TaskId} {l : List TaskId}
    (hpushed : w'.pushed = w.pushed ++ [⟨start, start, [], false⟩]) (hhooks : w'.hooks = w.hooks)
    (hwindow : w'.submitWindow = .init) (hmaxsize : w'.submitWindowMaxsize = w.submitWindowMaxsize)
    (hgiven : w'.given = (parts.flatMap fun p => p.1.walked ++ p.2) ++ l)
    (hloop : Loop w.hooks start start l) (hnodup : (pending parts l).Nodup) :
    w'.Inv (parts ++ [(⟨start, start, [], false⟩, l)]) [] := by
  refine ⟨?_, fun p hp => ?_, hwindow, ?_, ?_, hmaxsize ▸ h.size, fun _ => rfl⟩
  · rw [List.map_append, h.pushed, hpushed]
    rfl
  · rw [hhooks]
    rcases List.mem_append.mp hp with hp | hp
    · exact h.left p hp
    · rw [List.mem_singleton.mp hp]
      exact hloop
  · rw [hgiven]
    simp
  · rw [pending_push]
    exact hnodup

/-- **A flush** pushes what the window holds and keeps the order. -/
theorem inv_flush (h : w.Inv parts contents) (hflush : w.flush = some w') :
    ∃ parts', w'.Inv parts' [] ∧ pending parts' [] = pending parts contents := by
  rw [flush] at hflush
  cases contents with
  | nil =>
      have hempty : w.submitWindow.empty = true := by
        rw [show w.submitWindow = .init from h.window]
        rfl
      rw [if_pos hempty] at hflush
      obtain rfl := Option.some.inj hflush
      exact ⟨parts, h, rfl⟩
  | cons start l =>
      obtain ⟨hgroup, hring⟩ := h.window
      have hempty : w.submitWindow.empty = false := by rw [hgroup]; rfl
      have hhead : w.submitWindow.headTask = some start := by rw [hgroup]
      rw [if_neg (by simp [hempty]), submitGroup, if_neg (by simp [hempty]), hhead] at hflush
      obtain rfl := Option.some.inj hflush
      exact ⟨_, inv_push h rfl rfl rfl rfl h.given.symm (Loop.of_isRing hring) h.nodup,
        pending_push parts start (start :: l)⟩

/-- A task on its own is a group of one. -/
theorem inv_submitSingle (h : w.Inv parts []) (ht : t ∉ pending parts [])
    (hsubmit : (w.give t).submitSingle t = some w') :
    ∃ parts', w'.Inv parts' [] ∧ pending parts' [] = pending parts [] ++ [t] := by
  rw [submitSingle] at hsubmit
  split at hsubmit
  · cases hsubmit
  · rename_i hfree
    obtain rfl := Option.some.inj hsubmit
    have hself : w.hooks.next t = t := by
      by_contra hne
      exact hfree (decide_eq_true hne)
    have hpending : pending parts [t] = pending parts [] ++ [t] := by simp [pending]
    refine ⟨_, inv_push h rfl rfl h.window rfl ?_ (.last hself) ?_, ?_⟩
    · have hgiven := h.given
      rw [List.append_nil] at hgiven
      rw [hgiven]
      rfl
    · rw [hpending]
      exact h.nodup.append (List.nodup_singleton t) (List.disjoint_singleton.mpr ht)
    · rw [pending_push, hpending]

/-- The task joins the window. -/
theorem inv_add (h : w.Inv parts contents) (ht : t ∉ pending parts contents)
    (hsize : w.submitWindowMaxsize ≠ 1) :
    ((w.give t).add t).Inv parts (contents ++ [t])
      ∧ pending parts (contents ++ [t]) = pending parts contents ++ [t] := by
  have hpending : pending parts (contents ++ [t]) = pending parts contents ++ [t] := by
    simp [pending]
  have hcontents : t ∉ contents := fun hin => ht (List.mem_append_right _ hin)
  refine ⟨⟨h.pushed, fun p hp => (h.left p hp).frame fun x hx => ?_, h.window.add hcontents, ?_, ?_,
    h.size, fun hone => absurd hone hsize⟩, hpending⟩
  · have hrest : x ∈ parts.flatMap Prod.snd := List.mem_flatMap.mpr ⟨p, hp, hx⟩
    refine (h.window.add_same (fun hin => ?_) ?_).1
    · exact (List.nodup_append.mp h.nodup).2.2 x hrest x hin rfl
    · exact fun heq => ht (List.mem_append_left _ (heq ▸ hrest))
  · rw [← List.append_assoc, h.given]
    rfl
  · rw [hpending]
    exact h.nodup.append (List.nodup_singleton t) (List.disjoint_singleton.mpr ht)

/-- **What `scheduler_batch_submit` does**: the task comes last. -/
theorem inv_batchSubmit (h : w.Inv parts contents) (ht : t ∉ pending parts contents)
    (hsubmit : w.batchSubmit t = some w') :
    ∃ parts' contents', w'.Inv parts' contents'
      ∧ pending parts' contents' = pending parts contents ++ [t] := by
  rw [batchSubmit] at hsubmit
  split at hsubmit
  · rename_i hone
    obtain rfl := h.single hone
    obtain ⟨parts', hinv, hpending⟩ := inv_submitSingle h ht hsubmit
    exact ⟨parts', [], hinv, hpending⟩
  · rename_i hone
    obtain ⟨hadd, hpending⟩ := inv_add h ht hone
    split at hsubmit
    · obtain ⟨parts', hinv, hpending'⟩ := inv_flush hadd hsubmit
      exact ⟨parts', [], hinv, hpending'.trans hpending⟩
    · obtain rfl := Option.some.inj hsubmit
      exact ⟨parts, contents ++ [t], hadd, hpending⟩

theorem flush_count (hflush : w.flush = some w') :
    w'.submitWindow.count = 0 ∧ w'.submitWindowMaxsize = w.submitWindowMaxsize := by
  rw [flush] at hflush
  split at hflush
  · rename_i hempty
    obtain rfl := Option.some.inj hflush
    exact ⟨beq_iff_eq.mp hempty, rfl⟩
  · rename_i hempty
    rw [submitGroup, if_neg hempty] at hflush
    cases hhead : w.submitWindow.headTask with
    | none => rw [hhead] at hflush; cases hflush
    | some start =>
        rw [hhead] at hflush
        obtain rfl := Option.some.inj hflush
        exact ⟨rfl, rfl⟩

/-- After `scheduler_batch_submit` the window is not full. -/
theorem batchSubmit_count (h : w.Inv parts contents) (hsubmit : w.batchSubmit t = some w') :
    w'.submitWindow.count < w'.submitWindowMaxsize := by
  rw [batchSubmit] at hsubmit
  split at hsubmit
  · rename_i hone
    rw [submitSingle] at hsubmit
    split at hsubmit
    · cases hsubmit
    · obtain rfl := Option.some.inj hsubmit
      have hcount : w.submitWindow.count = 0 := by rw [h.window.count, h.single hone]; rfl
      show w.submitWindow.count < w.submitWindowMaxsize
      rw [hcount]
      exact h.size
  · split at hsubmit
    · obtain ⟨hcount, hmaxsize⟩ := flush_count hsubmit
      rw [hcount, hmaxsize]
      exact h.size
    · obtain rfl := Option.some.inj hsubmit
      exact Nat.lt_of_not_le ‹_›

theorem flush_resize (w : SubmitWindow) (n : Nat) :
    SubmitWindow.flush { w with submitWindowMaxsize := n }
      = w.flush.map fun w => { w with submitWindowMaxsize := n } := by
  unfold flush submitGroup
  split
  · rfl
  · cases w.submitWindow.headTask <;> rfl

theorem inv_resize (h : w.Inv parts contents) {n : Nat} (hn : n ≠ 0) (hone : n = 1 → contents = []) :
    SubmitWindow.Inv { w with submitWindowMaxsize := n } parts contents :=
  ⟨h.pushed, h.left, h.window, h.given, h.nodup, Nat.one_le_iff_ne_zero.mpr hn, hone⟩

theorem inv_setSize (h : w.Inv parts contents) {n : Nat} (hset : w.setSize n = some w') :
    ∃ parts' contents', w'.Inv parts' contents'
      ∧ pending parts' contents' = pending parts contents := by
  rw [setSize] at hset
  split at hset
  · obtain rfl := Option.some.inj hset
    exact ⟨parts, contents, h, rfl⟩
  · rename_i hn
    split at hset
    · rw [flush_resize, Option.map_eq_some_iff] at hset
      obtain ⟨w₁, hflush, rfl⟩ := hset
      obtain ⟨parts', hinv, hpending⟩ := inv_flush h hflush
      exact ⟨parts', [], inv_resize hinv hn fun _ => rfl, hpending⟩
    · obtain rfl := Option.some.inj hset
      exact ⟨parts, contents, inv_resize h hn fun hone => absurd hone ‹_›, rfl⟩

/-- The element at a place, and what is on either side of it. -/
theorem part_split (h : w.Inv parts contents) {n : Nat} {g : PushedGroup}
    (hn : w.pushed[n]? = some g) :
    ∃ front back r, parts = front ++ (g, r) :: back ∧ w.pushed.set n = fun g' =>
      (front.map Prod.fst) ++ g' :: back.map Prod.fst := by
  rw [← h.pushed, List.getElem?_map, Option.map_eq_some_iff] at hn
  obtain ⟨p, hp, rfl⟩ := hn
  obtain ⟨hlt, rfl⟩ := List.getElem?_eq_some_iff.mp hp
  refine ⟨parts.take n, parts.drop (n + 1), parts[n].2, ?_, funext fun g' => ?_⟩
  · show parts = parts.take n ++ parts[n] :: parts.drop (n + 1)
    rw [List.getElem_cons_drop, List.take_append_drop]
  · rw [← h.pushed, List.set_eq_take_append_cons_drop, if_pos (by simpa using hlt), List.map_take,
      List.map_drop]

/-- **One round** takes the first task of a group out of what waits. -/
theorem inv_walk (h : w.Inv parts contents) {n : Nat} (hwalk : w.walk n = some w') :
    ∃ parts', w'.Inv parts' contents
      ∧ (pending parts' contents).Sublist (pending parts contents) := by
  rw [walk] at hwalk
  split at hwalk
  · cases hwalk
  · rename_i g hg
    split at hwalk
    · cases hwalk
    · rename_i hfin
      obtain rfl := Option.some.inj hwalk
      obtain ⟨front, back, r, rfl, hset⟩ := part_split h hg
      have hr : g.Left w.hooks r := h.left (g, r) (by simp)
      have hnodup := h.nodup
      rw [pending, List.flatMap_append, List.flatMap_cons] at hnodup
      have hrnodup : r.Nodup := (List.nodup_append.mp
        (List.nodup_append.mp (List.nodup_append.mp hnodup).1).2.1).1
      obtain ⟨r', rfl, hleft⟩ := hr.walk (by simpa using hfin) hrnodup
      -- the task that is walked is in no other place
      have hother : ∀ x, x ∈ front.flatMap Prod.snd ∨ x ∈ back.flatMap Prod.snd ∨ x ∈ contents →
          x ≠ g.iterator := by
        rintro x hx rfl
        simp only [List.append_assoc, List.cons_append, List.nodup_append, List.nodup_cons,
          List.mem_cons, List.mem_append] at hnodup
        grind
      have hsame : ∀ x, x ∈ front.flatMap Prod.snd ∨ x ∈ back.flatMap Prod.snd ∨ x ∈ contents →
          w.hooks.Same (w.hooks.init g.iterator) x := fun x hx => same_init (hother x hx)
      have hsub : (pending (front ++ (g.walk w.hooks, r') :: back) contents).Sublist
          (pending (front ++ (g, g.iterator :: r') :: back) contents) := by
        simp [pending]
      refine ⟨front ++ (g.walk w.hooks, r') :: back, ⟨?_, fun p hp => ?_, ?_, ?_,
        h.nodup.sublist hsub, h.size, h.single⟩, hsub⟩
      · simp [hset]
      · rcases List.mem_append.mp hp with hp | hp
        · refine (h.left p (List.mem_append_left _ hp)).frame fun x hx => (hsame x (Or.inl ?_)).1
          exact List.mem_flatMap.mpr ⟨p, hp, hx⟩
        · rcases List.mem_cons.mp hp with rfl | hp
          · exact hleft
          · refine (h.left p (by simp [hp])).frame fun x hx => (hsame x (Or.inr (Or.inl ?_))).1
            exact List.mem_flatMap.mpr ⟨p, hp, hx⟩
      · exact h.window.frame fun x hx => hsame x (Or.inr (Or.inr hx))
      · have hgiven := h.given
        simp only [List.flatMap_append, List.flatMap_cons, List.append_assoc] at hgiven ⊢
        rw [← hgiven]
        simp [PushedGroup.walk]

end SubmitWindow

/-! ## The invariant of a run -/

namespace Submitter

structure Inv (s : Submitter) (parts : List PushedPart) (contents : List TaskId) : Prop where
  window : s.window.Inv parts contents
  ready : ∀ t ∈ pending parts contents, CountTaken (s.blockingCount t)
  slot : ∀ t, s.immediate = some t → t ∉ pending parts contents ∧ CountTaken (s.blockingCount t)
  stopped : s.activity.Stopped → contents = []

/-- The invariant, for some reading of the groups and of the window. -/
def Ok (s : Submitter) : Prop := ∃ parts contents, s.Inv parts contents

variable {s s' : Submitter} {parts parts' : List PushedPart} {contents contents' : List TaskId}
  {t : TaskId} {a : Activity}

theorem Begins.ok (h : s.Begins) : s.Ok := by
  refine ⟨[], [], ⟨?_, by simp, h.window, ?_, List.nodup_nil, ?_, fun _ => rfl⟩, by simp [pending],
    fun t ht => ⟨by simp [pending], h.slot t ht⟩, fun _ => rfl⟩
  · rw [h.pushed]
    rfl
  · rw [h.given]
    rfl
  · rw [h.maxsize]

/-- Another window, with nothing in it that did not wait before. -/
theorem inv_setWindow (h : s.Inv parts contents) {w : SubmitWindow} (hw : w.Inv parts' contents')
    (hsub : ∀ t ∈ pending parts' contents', t ∈ pending parts contents)
    (hstopped : s.activity.Stopped → contents' = []) : (s.setWindow w).Inv parts' contents' :=
  ⟨hw, fun t ht => h.ready t (hsub t ht),
    fun t ht => ⟨fun hin => (h.slot t ht).1 (hsub t hin), (h.slot t ht).2⟩, hstopped⟩

theorem inv_flush (h : s.Inv parts contents) (hflush : s.flush = some s') :
    ∃ parts', s'.Inv parts' [] := by
  obtain ⟨w, hw, rfl⟩ := Option.map_eq_some_iff.mp hflush
  obtain ⟨parts', hinv, hpending⟩ := SubmitWindow.inv_flush h.window hw
  exact ⟨parts', inv_setWindow h hinv (fun t ht => hpending ▸ ht) fun _ => rfl⟩

/-- **Every stop comes after a flush.** -/
theorem ok_flushAnd (h : s.Ok) (hflush : s.flushAnd a = some s') : s'.Ok := by
  obtain ⟨parts, contents, hinv⟩ := h
  obtain ⟨s₁, hs₁, rfl⟩ := Option.map_eq_some_iff.mp hflush
  obtain ⟨parts', hinv⟩ := inv_flush hinv hs₁
  exact ⟨parts', [], hinv.window, hinv.ready, hinv.slot, fun _ => rfl⟩

theorem ok_setActivity (h : s.Ok) (ha : ¬ a.Stopped) : (s.setActivity a).Ok := by
  obtain ⟨parts, contents, hinv⟩ := h
  exact ⟨parts, contents, hinv.window, hinv.ready, hinv.slot, fun hstop => absurd hstop ha⟩

theorem decBlockingCount_self (s : Submitter) (t : TaskId) :
    (s.decBlockingCount t).blockingCount t = countDown (s.blockingCount t) := Function.update_self ..

/-- A submission keeps the counts of the tasks that have been submitted. -/
theorem decBlockingCount_taken {x : TaskId} (hfits : x = t → CountFits (s.blockingCount t))
    (hx : CountTaken (s.blockingCount x)) : CountTaken ((s.decBlockingCount t).blockingCount x) := by
  by_cases hxt : x = t
  · subst hxt
    rw [decBlockingCount_self]
    exact hx.down (hfits rfl)
  · simp only [decBlockingCount, setCount, Function.update_of_ne hxt]
    exact hx

/-- What waits is in a group or in the slot. -/
theorem Inv.waits (h : s.Inv parts contents) :
    s.Waits t ↔ t ∈ pending parts contents ∨ s.immediate = some t :=
  or_congr (SubmitWindow.waits_iff h.window) Iff.rfl

theorem inv_decBlockingCount (h : s.Inv parts contents)
    (hfits : s.Waits t → CountFits (s.blockingCount t)) :
    (s.decBlockingCount t).Inv parts contents := by
  refine ⟨h.window, fun x hx => decBlockingCount_taken (fun hxt => hfits ?_) (h.ready x hx),
    fun x hx => ⟨(h.slot x hx).1, decBlockingCount_taken (fun hxt => hfits ?_) (h.slot x hx).2⟩,
    h.stopped⟩
  · exact h.waits.mpr (Or.inl (hxt ▸ hx))
  · exact h.waits.mpr (Or.inr (hxt ▸ hx))

/-- Who submits a task for the first time since it blocked, finds it
waiting nowhere. -/
theorem Inv.fresh (h : s.Inv parts contents) (ht : countDown (s.blockingCount t) = 0) :
    t ∉ pending parts contents ∧ s.immediate ≠ some t :=
  ⟨fun hin => (h.ready t hin).down_ne ht, fun hin => (h.slot t hin).2.down_ne ht⟩

/-- A task joins what waits; the slot is `u` after that. -/
theorem inv_batchSubmit (h : s.Inv parts contents) (hrunning : ¬ s.activity.Stopped)
    (ht : t ∉ pending parts contents) (hcount : CountTaken (s.blockingCount t)) {u : Option TaskId}
    (hu : ∀ x, u = some x → x ∉ pending parts contents ∧ x ≠ t ∧ CountTaken (s.blockingCount x))
    (hsubmit : (s.batchSubmit t).map (fun s => s.setImmediate u) = some s') : s'.Ok := by
  obtain ⟨s₁, hs₁, rfl⟩ := Option.map_eq_some_iff.mp hsubmit
  obtain ⟨w, hw, rfl⟩ := Option.map_eq_some_iff.mp hs₁
  obtain ⟨parts', contents', hinv, hpending⟩ := SubmitWindow.inv_batchSubmit h.window ht hw
  refine ⟨parts', contents', hinv, fun x hx => ?_, fun x hx => ?_, fun hstop => absurd hstop hrunning⟩
  · rw [hpending, List.mem_append, List.mem_singleton] at hx
    rcases hx with hx | rfl
    · exact h.ready x hx
    · exact hcount
  · obtain ⟨hxpending, hne, hxcount⟩ := hu x hx
    rw [hpending, List.mem_append, List.mem_singleton]
    exact ⟨fun hin => hin.elim hxpending hne, hxcount⟩

theorem ok_vacate (h : s.Inv parts contents) (hrunning : ¬ s.activity.Stopped) {u : Option TaskId}
    (hu : ∀ x, u = some x →
      x ∉ pending parts contents ∧ s.immediate ≠ some x ∧ CountTaken (s.blockingCount x))
    (hvacate : s.vacate.map (fun s => s.setImmediate u) = some s') : s'.Ok := by
  rw [vacate] at hvacate
  split at hvacate
  · obtain rfl := Option.some.inj hvacate
    exact ⟨parts, contents, h.window, h.ready, fun x hx => ⟨(hu x hx).1, (hu x hx).2.2⟩, h.stopped⟩
  · rename_i t ht
    refine inv_batchSubmit h hrunning (h.slot t ht).1 (h.slot t ht).2 (fun x hx => ?_) hvacate
    obtain ⟨hxpending, hne, hxcount⟩ := hu x hx
    exact ⟨hxpending, fun heq => hne (heq ▸ ht), hxcount⟩

/-! ## Every call keeps it -/

theorem ok_submitPlain (h : s.Ok) (hrunning : ¬ s.activity.Stopped)
    (hfits : s.Waits t → CountFits (s.blockingCount t))
    (hsubmit : s.submitPlain t = some s') : s'.Ok := by
  obtain ⟨parts, contents, hinv⟩ := h
  have hdec := inv_decBlockingCount hinv hfits
  rw [submitPlain] at hsubmit
  split at hsubmit
  · rename_i hcount
    obtain ⟨hpending, hslot⟩ := hinv.fresh hcount
    have hsame : ((s.decBlockingCount t).batchSubmit t).map
        (fun s₁ => s₁.setImmediate s.immediate) = some s' := by
      obtain ⟨w, hw, rfl⟩ := Option.map_eq_some_iff.mp hsubmit
      rw [batchSubmit, hw]
      rfl
    refine inv_batchSubmit hdec hrunning hpending ?_ (fun x hx => ?_) hsame
    · rw [decBlockingCount_self, hcount]
      exact countTaken_zero
    · exact ⟨(hdec.slot x hx).1, fun heq => hslot (heq ▸ hx), (hdec.slot x hx).2⟩
  · obtain rfl := Option.some.inj hsubmit
    exact ⟨parts, contents, hdec⟩

theorem ok_submitImmediate (h : s.Ok) (hrunning : ¬ s.activity.Stopped)
    (hfits : s.Waits t → CountFits (s.blockingCount t))
    (hsubmit : s.submitImmediate t = some s') : s'.Ok := by
  obtain ⟨parts, contents, hinv⟩ := h
  have hdec := inv_decBlockingCount hinv hfits
  rw [submitImmediate] at hsubmit
  split at hsubmit
  · rename_i hcount
    obtain ⟨hpending, hslot⟩ := hinv.fresh hcount
    refine ok_vacate hdec hrunning (fun x hx => ?_) hsubmit
    obtain rfl := Option.some.inj hx
    refine ⟨hpending, hslot, ?_⟩
    rw [decBlockingCount_self, hcount]
    exact countTaken_zero
  · obtain rfl := Option.some.inj hsubmit
    exact ⟨parts, contents, hdec⟩

theorem ok_submitInline (h : s.Ok) (hfits : s.Waits t → CountFits (s.blockingCount t))
    (hsubmit : s.submitInline t = some s') : s'.Ok := by
  obtain ⟨parts, contents, hinv⟩ := h
  rw [submitInline] at hsubmit
  split at hsubmit
  · exact ok_flushAnd ⟨parts, contents, inv_decBlockingCount hinv hfits⟩ hsubmit
  · cases hsubmit

theorem ok_nosvSubmit {flags : SubmitFlags} {parallel : Bool} (h : s.Ok)
    (hrunning : ¬ s.activity.Stopped) (hfits : s.Waits t → CountFits (s.blockingCount t))
    (hsubmit : s.nosvSubmit flags t parallel = some s') : s'.Ok := by
  rw [nosvSubmit] at hsubmit
  split at hsubmit
  · exact Option.some.inj hsubmit ▸ h
  split at hsubmit
  · exact Option.some.inj hsubmit ▸ h
  split at hsubmit
  · exact Option.some.inj hsubmit ▸ h
  split at hsubmit
  · exact ok_submitImmediate h hrunning hfits hsubmit
  split at hsubmit
  · exact ok_submitInline h hfits hsubmit
  split at hsubmit
  · exact Option.some.inj hsubmit ▸ h
  split at hsubmit
  · obtain ⟨s₁, hplain, hpause⟩ := Option.bind_eq_some_iff.mp hsubmit
    exact ok_flushAnd (ok_submitPlain h hrunning hfits hplain) hpause
  · exact ok_submitPlain h hrunning hfits hsubmit

theorem ok_nosvPause (h : s.Ok) (hpause : s.nosvPause = some s') : s'.Ok := by
  obtain ⟨parts, contents, hinv⟩ := h
  obtain ⟨s₁, hflush, hpause⟩ := Option.bind_eq_some_iff.mp hpause
  obtain ⟨parts', hinv⟩ := inv_flush hinv hflush
  exact ok_flushAnd ⟨parts', [], hinv⟩ hpause

theorem ok_nosvDetach (h : s.Ok) (hrunning : ¬ s.activity.Stopped)
    (hdetach : s.nosvDetach = some s') : s'.Ok := by
  obtain ⟨parts, contents, hinv⟩ := h
  obtain ⟨s₁, hvacate, hflush⟩ := Option.bind_eq_some_iff.mp hdetach
  exact ok_flushAnd (ok_vacate hinv hrunning (fun _ hx => by cases hx) hvacate) hflush

theorem ok_setSize (h : s.Ok) (hrunning : ¬ s.activity.Stopped) {n : Nat}
    (hset : (s.window.setSize n).map s.setWindow = some s') : s'.Ok := by
  obtain ⟨parts, contents, hinv⟩ := h
  obtain ⟨w, hw, rfl⟩ := Option.map_eq_some_iff.mp hset
  obtain ⟨parts', contents', hwinv, hpending⟩ := SubmitWindow.inv_setSize hinv.window hw
  exact ⟨parts', contents', inv_setWindow hinv hwinv (fun t ht => hpending ▸ ht)
    fun hstop => absurd hstop hrunning⟩

theorem ok_call {move : SubmitMove} (h : s.Ok) (hfits : s.Fitting move)
    (hrunning : s.activity = .running) (hcall : s.call move = some s') : s'.Ok := by
  have hstop : ¬ s.activity.Stopped := by rw [hrunning]; exact id
  cases move with
  | submit flags t parallel => exact ok_nosvSubmit h hstop hfits hcall
  | setSubmitWindowSize n => exact ok_setSize h hstop hcall
  | flushSubmitWindow =>
      obtain ⟨parts, contents, hinv⟩ := h
      obtain ⟨parts', hinv⟩ := inv_flush hinv hcall
      exact ⟨parts', [], hinv⟩
  | pause => exact ok_nosvPause h hcall
  | waitfor => exact ok_flushAnd h hcall
  | mutexLock taken =>
      cases taken with
      | false => exact Option.some.inj hcall ▸ h
      | true => exact ok_flushAnd h hcall
  | mutexUnlock yieldTo =>
      obtain rfl := Option.some.inj hcall
      cases yieldTo with
      | false => exact h
      | true => exact ok_setActivity h id
  | barrierWait last =>
      cases last with
      | false => exact ok_flushAnd h hcall
      | true => exact Option.some.inj hcall ▸ h
  | condWait timed =>
      cases timed with
      | false => exact ok_nosvPause h hcall
      | true => exact ok_flushAnd h hcall
  | yield noflush =>
      cases noflush with
      | false => exact ok_flushAnd h hcall
      | true => exact Option.some.inj hcall ▸ ok_setActivity h id
  | schedpoint => exact ok_flushAnd h hcall
  | bodyEnd suspend => exact ok_flushAnd h hcall
  | detach => exact ok_nosvDetach h hstop hcall
  | resume => cases hcall
  | slot u => cases hcall
  | walk n => cases hcall
  | elsewhere t next prev count => cases hcall
  | submitElsewhere t => cases hcall

/-! ## And every other move -/

theorem ok_slot (h : s.Ok) {u : Option TaskId} (hu : s.MayHold u) : (s.setImmediate u).Ok := by
  obtain ⟨parts, contents, hinv⟩ := h
  refine ⟨parts, contents, hinv.window, hinv.ready, fun t ht => ?_, hinv.stopped⟩
  obtain rfl : u = some t := ht
  exact ⟨fun hin => hu.1 ((SubmitWindow.waits_iff hinv.window).mpr hin), hu.2⟩

theorem ok_walk (h : s.Ok) {n : Nat} (hwalk : (s.window.walk n).map s.setWindow = some s') :
    s'.Ok := by
  obtain ⟨parts, contents, hinv⟩ := h
  obtain ⟨w, hw, rfl⟩ := Option.map_eq_some_iff.mp hwalk
  obtain ⟨parts', hwinv, hsub⟩ := SubmitWindow.inv_walk hinv.window hw
  exact ⟨parts', contents, inv_setWindow hinv hwinv (fun t ht => hsub.mem ht) hinv.stopped⟩

theorem ok_elsewhere (h : s.Ok) (ht : ¬ s.Waits t) (next prev : TaskId) (count : Int) :
    ((s.setWindow (s.window.relink t next prev)).setCount t count).Ok := by
  obtain ⟨parts, contents, hinv⟩ := h
  have hpending : t ∉ pending parts contents := fun hin =>
    ht (Or.inl ((SubmitWindow.waits_iff hinv.window).mpr hin))
  have hcount : ∀ x, x ≠ t → ((s.setWindow (s.window.relink t next prev)).setCount t
      count).blockingCount x = s.blockingCount x := fun x hx => Function.update_of_ne hx _ _
  refine ⟨parts, contents, SubmitWindow.inv_relink hinv.window hpending next prev,
    fun x hx => ?_, fun x hx => ⟨(hinv.slot x hx).1, ?_⟩, hinv.stopped⟩
  · rw [hcount x fun heq => hpending (heq ▸ hx)]
    exact hinv.ready x hx
  · rw [hcount x fun heq => ht (Or.inr (heq ▸ hx))]
    exact (hinv.slot x hx).2

theorem ok_step {move : SubmitMove} (h : s.Ok) (hfits : s.Fitting move)
    (hstep : s.step move = some s') : s'.Ok := by
  have hcall : (if s.activity = .running then s.call move else none) = some s' → s'.Ok := by
    intro heq
    obtain ⟨hrunning, heq⟩ := Option.ite_none_right_eq_some.mp heq
    exact ok_call h hfits hrunning heq
  cases move with
  | resume =>
      obtain ⟨-, heq⟩ := Option.ite_none_left_eq_some.mp hstep
      exact Option.some.inj heq ▸ ok_setActivity h id
  | slot u =>
      obtain ⟨⟨-, hu⟩, heq⟩ := Option.ite_none_right_eq_some.mp hstep
      exact Option.some.inj heq ▸ ok_slot h hu
  | walk n => exact ok_walk h hstep
  | elsewhere t next prev count =>
      obtain ⟨ht, heq⟩ := Option.ite_none_left_eq_some.mp hstep
      exact Option.some.inj heq ▸ ok_elsewhere h ht next prev count
  | submitElsewhere t =>
      obtain ⟨-, heq⟩ := Option.ite_none_right_eq_some.mp hstep
      obtain ⟨parts, contents, hinv⟩ := h
      clear hcall
      exact Option.some.inj heq ▸ ⟨parts, contents, inv_decBlockingCount hinv hfits⟩
  | submit flags t parallel => exact hcall hstep
  | setSubmitWindowSize n => exact hcall hstep
  | flushSubmitWindow => exact hcall hstep
  | pause => exact hcall hstep
  | waitfor => exact hcall hstep
  | mutexLock taken => exact hcall hstep
  | mutexUnlock yieldTo => exact hcall hstep
  | barrierWait last => exact hcall hstep
  | condWait timed => exact hcall hstep
  | yield noflush => exact hcall hstep
  | schedpoint => exact hcall hstep
  | bodyEnd suspend => exact hcall hstep
  | detach => exact hcall hstep

theorem ok_run {moves : List SubmitMove} (hbegin : s.Begins)
    (hfits : Along step Fitting s moves) (hrun : run step s moves = some s') : s'.Ok :=
  invariant_along (fun _ _ _ hfits hstep hok => ok_step hok hfits hstep) hfits hrun hbegin.ok

end Submitter

/-- **The submit window neither loses nor reorders tasks.** In every run
in which no blocking count of a waiting task wraps around, the groups pushed
so far and then the window are what has been given to
`scheduler_batch_submit`; a call of it leaves the window with fewer tasks
than its size; and the window is empty when the task has stopped. -/
theorem submit_window_in_order {s s' : Submitter} {moves : List SubmitMove} (hbegin : s.Begins)
    (hfits : Along Submitter.step Submitter.Fitting s moves)
    (hrun : run Submitter.step s moves = some s') :
    s'.window.InOrder
      ∧ (∀ t w, s'.window.batchSubmit t = some w → w.submitWindow.count < w.submitWindowMaxsize)
      ∧ (s'.activity.Stopped → s'.window.submitWindow = .init) := by
  obtain ⟨parts, contents, hinv⟩ := Submitter.ok_run hbegin hfits hrun
  refine ⟨SubmitWindow.inOrder hinv.window, fun t w hw => SubmitWindow.batchSubmit_count hinv.window hw,
    fun hstop => ?_⟩
  have hwindow := hinv.window.window
  rw [hinv.stopped hstop] at hwindow
  exact hwindow

/-- A task whose hooks are all free begins with an empty slot. -/
def Submitter.fresh : Submitter where
  window := ⟨.unlinked, .init, 1, [], []⟩
  blockingCount := fun _ => 1
  immediate := none
  schedImmediateSuccessor := true
  activity := .running

theorem Submitter.fresh_begins : Submitter.fresh.Begins :=
  ⟨rfl, rfl, rfl, rfl, rfl, fun _ h => by cases h⟩

/-- A window of three tasks is filled by one that loses the slot, and the
scheduler walks along it while the task submits another one and pauses. -/
def Submitter.replacing : List SubmitMove :=
  [.setSubmitWindowSize 3, .submit ⟨false, false, false, false⟩ 1 false,
    .submit ⟨false, true, false, false⟩ 2 false, .submit ⟨false, false, false, false⟩ 3 false,
    .submit ⟨false, true, false, false⟩ 4 false, .walk 0,
    .submit ⟨false, false, false, false⟩ 5 false, .walk 0, .pause]

theorem submit_window_in_order_replaced :
    ∃ s, run Submitter.step .fresh Submitter.replacing = some s
      ∧ s.window.given = [1, 3, 2, 5] ∧ s.immediate = some 4
      ∧ s.window.InOrder
      ∧ (∀ t w, s.window.batchSubmit t = some w → w.submitWindow.count < w.submitWindowMaxsize)
      ∧ (s.activity.Stopped → s.window.submitWindow = .init) :=
  ⟨_, rfl, rfl, rfl, submit_window_in_order Submitter.fresh_begins (by decide +kernel)
    (rfl : run Submitter.step .fresh Submitter.replacing = some _)⟩

/-! ## Too many submissions -/

def SubmitMove.plainly (t : TaskId) : SubmitMove := .submit ⟨false, false, false, false⟩ t false

namespace Submitter

/-- Task `1` is in a window of three tasks, and its count is `count`. -/
def windowed (count : Int) : Submitter where
  window := ((⟨.unlinked, .init, 3, [], []⟩ : SubmitWindow).give 1).add 1
  blockingCount := Function.update (fun _ => 1) 1 count
  immediate := none
  schedImmediateSuccessor := true
  activity := .running

theorem step_windowed (n : Nat) (hn : n < 4294967295) :
    (windowed (i32 (-n))).step (.plainly 1) = some (windowed (i32 (-(n + 1 : Nat)))) := by
  have hne : countDown (i32 (-n)) ≠ 0 := by
    rw [countDown_i32_neg]
    exact i32_neg_ne_zero (Nat.succ_pos n) (by omega)
  rw [← countDown_i32_neg]
  simp [step, SubmitMove.plainly, call, nosvSubmit, submitPlain, windowed, decBlockingCount,
    setCount, hne]

/-- The task sets up its window and submits task `1` into it. -/
theorem run_fresh (moves : List SubmitMove) {n : Nat} (hlt : n < 4294967296) :
    run step .fresh (.setSubmitWindowSize 3 :: .plainly 1 :: (List.replicate n (.plainly 1) ++ moves))
      = run step (windowed (i32 (-n))) moves := by
  have hfirst (rest : List SubmitMove) :
      run step .fresh (.setSubmitWindowSize 3 :: .plainly 1 :: rest) = run step (windowed 0) rest := rfl
  have hrest := run_replicate step_windowed moves (m := n) (n := 0) (by omega)
  rw [Nat.zero_add] at hrest
  rw [hfirst, ← hrest]
  rfl

end Submitter

/-- A group of one task is read once, although the task was given twice. -/
theorem SubmitWindow.not_inOrder {w : SubmitWindow} {t : TaskId}
    (hpushed : w.pushed = [⟨t, t, [], false⟩]) (hwindow : w.submitWindow = .init)
    (hgiven : w.given = [t, t]) (hnext : w.hooks.next t = t) : ¬ w.InOrder := by
  rintro ⟨groups, contents, hreads, hholds, hsame⟩
  rw [hpushed] at hreads
  obtain ⟨l, rest, hl, hrest, rfl⟩ := List.forall₂_cons_left_iff.mp hreads
  obtain rfl := List.forall₂_nil_left_iff.mp hrest
  obtain rfl := hl.unique ⟨[t], Loop.last hnext, rfl⟩
  cases contents with
  | nil =>
      rw [hgiven] at hsame
      simp at hsame
  | cons h l =>
      have hinit := hwindow.symm.trans hholds.1
      cases hinit

/-- A task in the window that is submitted `2 ^ 32` more times is given to
`scheduler_batch_submit` twice, and comes out of the window once. -/
theorem submitted_twice :
    ¬ ∀ (s s' : Submitter) (moves : List SubmitMove), s.Begins → run Submitter.step s moves = some s' →
      s'.window.InOrder
        ∧ (∀ t w, s'.window.batchSubmit t = some w → w.submitWindow.count < w.submitWindowMaxsize)
        ∧ (s'.activity.Stopped → s'.window.submitWindow = .init) := by
  intro hall
  have hcount : i32 (-(4294967295 : Nat)) = 1 := by decide +kernel
  have hrun := Submitter.run_fresh [.plainly 1, .flushSubmitWindow] (n := 4294967295) (by decide)
  rw [hcount] at hrun
  obtain ⟨s', hlast, hpushed, hwindow, hgiven, hnext⟩ : ∃ s',
      run Submitter.step (.windowed 1) [.plainly 1, .flushSubmitWindow] = some s'
        ∧ s'.window.pushed = [⟨1, 1, [], false⟩] ∧ s'.window.submitWindow = .init
        ∧ s'.window.given = [1, 1] ∧ s'.window.hooks.next 1 = 1 := ⟨_, rfl, rfl, rfl, rfl, rfl⟩
  exact SubmitWindow.not_inOrder hpushed hwindow hgiven hnext
    (hall _ _ _ Submitter.fresh_begins (hrun.trans hlast)).1

end Nosv
