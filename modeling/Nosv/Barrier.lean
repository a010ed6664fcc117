import Mathlib.Data.List.Basic
import Nosv.Lib.Ring
import Nosv.Lib.Run
import Nosv.Task

/-!
# Barriers

`nosv_barrier_wait` on one barrier, by any number of tasks that are not
parallel; each section under the spinlock is one step. A task that is not
the last of its generation adds itself to the waiting group, leaves the
spinlock and only then blocks (`block`). The last one takes the group
away, resets the barrier, leaves the spinlock and only then submits the
group (`submit`), which puts its head into the queue of the scheduler.

The group is the circle of the `list_hook`s of its tasks. The scheduler
takes the head out of its queue at some later time (`pop`) and walks along
the circle, one task at a time (`insert`): by then the tasks it has passed
may run again, and wait at the same barrier. While a task is in the hands
of the scheduler, the scheduler links its hook as it likes (`relink`) and
resets it when it takes the task out.

The generations are counted from zero by `gen`; `arrivals`, `inserted` and
`returned` are the history of the barrier and nothing reads them.
-/

namespace Nosv

open Run Ring

/-- `task_group_t` -/
structure TaskGroup where
  headTask : Option TaskId
  count : Nat
  deriving DecidableEq

namespace TaskGroup

def init : TaskGroup := ⟨none, 0⟩

def empty (group : TaskGroup) : Bool := group.count == 0

def add (group : TaskGroup) (links : Links TaskId) (t : TaskId) : TaskGroup × Links TaskId :=
  match group.headTask with
  | some h => (⟨some h, group.count + 1⟩, links.addTail h t)
  | none => (⟨some t, group.count + 1⟩, links.init t)

end TaskGroup

/-- Where the group of a generation is. -/
inductive GroupStage where
  /-- in the barrier: the generation has not been released -/
  | gathering
  /-- in the hands of the last task, which is about to submit it -/
  | held (group : TaskGroup)
  /-- in the queue of the scheduler -/
  | queued (head : TaskId)
  /-- in the loop of `scheduler_process_ready_task_buffer` -/
  | walking (start iterator : TaskId)
  | done
  deriving DecidableEq

inductive BarrierPhase where
  | outside
  /-- in the group of generation `g`, on its way to `task_pause` -/
  | waiting (g : Nat)
  | blocked (g : Nat)
  /-- the last one of generation `g`, about to submit the others -/
  | submitting (g : Nat)
  deriving DecidableEq

structure Barrier where
  links : Links TaskId
  waitingTasks : TaskGroup
  count : Nat
  towait : Nat
  phase : TaskId → BarrierPhase
  stage : Nat → GroupStage
  /-- how often the task has been given to the scheduler and not been
  resumed since -/
  wake : TaskId → Nat
  gen : Nat
  /-- the tasks that have arrived in a generation, in order -/
  arrivals : Nat → List TaskId
  /-- the tasks of a generation that the scheduler has been given, in order -/
  inserted : Nat → List TaskId
  /-- the tasks that have returned, with the generation they waited for -/
  returned : List (TaskId × Nat)

inductive BarrierMove where
  | arrive (t : TaskId)
  | submit (t : TaskId)
  | pop (g : Nat)
  | insert (g : Nat)
  | block (t : TaskId)
  | resume (t : TaskId)
  | relink (t next prev : TaskId)

namespace Barrier

/-- `nosv_barrier_init` -/
def init (count : Nat) : Barrier where
  links := .unlinked
  waitingTasks := .init
  count := count
  towait := count
  phase := fun _ => .outside
  stage := fun _ => .gathering
  wake := fun _ => 0
  gen := 0
  arrivals := fun _ => []
  inserted := fun _ => []
  returned := []

def setPhase (s : Barrier) (t : TaskId) (p : BarrierPhase) : Barrier :=
  { s with phase := Function.update s.phase t p }

def setStage (s : Barrier) (g : Nat) (st : GroupStage) : Barrier :=
  { s with stage := Function.update s.stage g st }

/-- The task leaves `nosv_barrier_wait`. -/
def return' (s : Barrier) (t : TaskId) (g : Nat) : Barrier :=
  { s.setPhase t .outside with returned := s.returned ++ [(t, g)] }

/-- The task is not the last one and joins the waiting group. -/
def wait (s : Barrier) (t : TaskId) : Barrier :=
  { s.setPhase t (.waiting s.gen) with
    waitingTasks := (s.waitingTasks.add s.links t).1
    links := (s.waitingTasks.add s.links t).2 }

/-- The barrier is ready for the next generation. -/
def restore (s : Barrier) : Barrier :=
  { s with waitingTasks := .init, towait := s.count, gen := s.gen + 1 }

/-- The task is the last one; it takes the waiting group with it. -/
def release (s : Barrier) (t : TaskId) : Barrier :=
  if s.waitingTasks.empty then (s.restore.setStage s.gen .done).return' t s.gen
  else (s.restore.setStage s.gen (.held s.waitingTasks)).setPhase t (.submitting s.gen)

def decTowait (s : Barrier) (t : TaskId) : Barrier :=
  { s with
    towait := s.towait - 1
    arrivals := Function.update s.arrivals s.gen (s.arrivals s.gen ++ [t]) }

/-- The spinlock section of `nosv_barrier_wait`. -/
def arrive (s : Barrier) (t : TaskId) : Barrier :=
  if (s.decTowait t).towait ≠ 0 then (s.decTowait t).wait t else (s.decTowait t).release t

/-- One turn of the loop over a group: task `it` goes to the ready queues. -/
def insert (s : Barrier) (g : Nat) (start it : TaskId) : Barrier :=
  { s.setStage g (if s.links.next it ≠ start then .walking start (s.links.next it) else .done) with
    links := s.links.init it
    wake := Function.update s.wake it (s.wake it + 1)
    inserted := Function.update s.inserted g (s.inserted g ++ [it]) }

/-- The scheduler has reset the hook of the task, and a worker resumes it. -/
def resume (s : Barrier) (t : TaskId) (g : Nat) : Barrier :=
  { s.return' t g with
    wake := Function.update s.wake t (s.wake t - 1), links := s.links.init t }

def step (s : Barrier) : BarrierMove → Option Barrier
  | .arrive t => if s.phase t = .outside then some (s.arrive t) else none
  | .submit t =>
      match s.phase t with
      | .submitting g =>
          match s.stage g with
          | .held ⟨some h, _⟩ => some ((s.setStage g (.queued h)).return' t g)
          | _ => none
      | _ => none
  | .pop g =>
      match s.stage g with
      | .queued h => some (s.setStage g (.walking h h))
      | _ => none
  | .insert g =>
      match s.stage g with
      | .walking start it => some (s.insert g start it)
      | _ => none
  | .block t =>
      match s.phase t with
      | .waiting g => some (s.setPhase t (.blocked g))
      | _ => none
  | .resume t =>
      if 0 < s.wake t then
        match s.phase t with
        | .blocked g => some (s.resume t g)
        | _ => none
      else none
  | .relink t next prev =>
      if 0 < s.wake t then
        some { s with links := ⟨Function.update s.links.next t next,
                                Function.update s.links.prev t prev⟩ }
      else none

/-- The generation has been released. -/
def Released (s : Barrier) (g : Nat) : Prop := s.stage g ≠ .gathering

/-- The scheduler can be given all tasks of the generation that wait. -/
def Completes (s : Barrier) (g : Nat) : Prop :=
  ∃ moves s', run step s moves = some s' ∧ s'.arrivals g = s.arrivals g
    ∧ s'.inserted g = (s.arrivals g).dropLast

/-- The waiting group of the barrier is the circle of these tasks. -/
def Waits (s : Barrier) (l : List TaskId) : Prop :=
  s.waitingTasks = ⟨l.head?, l.length⟩ ∧ ∀ h rest, l = h :: rest → IsRing s.links h rest

end Barrier

/-- What is claimed of every state. -/
structure BarrierFollows (s : Barrier) : Prop where
  towait : 1 ≤ s.towait ∧ s.towait ≤ s.count
  group : s.Waits (s.arrivals s.gen) ∧ (s.arrivals s.gen).length = s.count - s.towait
  current : ∀ t ∈ s.arrivals s.gen, s.phase t = .waiting s.gen ∨ s.phase t = .blocked s.gen
  released : ∀ g, s.Released g ↔ (s.arrivals g).length = s.count
  distinct : ∀ g, (s.arrivals g).Nodup
  order : ∀ g, s.inserted g <+: (s.arrivals g).dropLast
  completes : ∀ g, s.Released g → s.Completes g
  returned : ∀ t g, (t, g) ∈ s.returned → t ∈ s.arrivals g ∧ (s.arrivals g).length = s.count

/-! ## The invariant -/

/-- What the stage of a group says, when the tasks `p` of it are still to
be given to the scheduler. -/
def GroupStage.Ok (links : Links TaskId) (p : List TaskId) : GroupStage → Prop
  | .gathering => ∀ h l, p = h :: l → IsRing links h l
  | .held group => ∃ h l, group.headTask = some h ∧ p = h :: l ∧ IsRing links h l
  | .queued h => ∃ l, p = h :: l ∧ IsRing links h l
  -- the hook of the first task is no longer the group's: only its address counts
  | .walking start it => ∃ l, p = it :: l ∧ start ∉ l
      ∧ (it :: (l ++ [start])).IsChain fun x y => links.next x = y
  | .done => p = []

theorem GroupStage.Ok.frame {links links' : Links TaskId} {p : List TaskId} {st : GroupStage}
    (hok : st.Ok links p) (hsame : ∀ x ∈ p, links.Same links' x) : st.Ok links' p := by
  cases st with
  | gathering =>
      intro h l hp
      exact (hok h l hp).frame (hp ▸ hsame)
  | held group =>
      obtain ⟨h, l, hhead, rfl, hring⟩ := hok
      exact ⟨h, l, hhead, rfl, hring.frame hsame⟩
  | queued h =>
      obtain ⟨l, rfl, hring⟩ := hok
      exact ⟨l, rfl, hring.frame hsame⟩
  | walking start it =>
      obtain ⟨l, rfl, hstart, hchain⟩ := hok
      refine ⟨l, rfl, hstart, ?_⟩
      rw [← List.cons_append] at hchain ⊢
      exact walk_congr (fun x hx => (hsame x hx).1) hchain
  | done => exact hok

/-- One turn of the loop over a group: the hook of task `it` is read, and
only then reset. -/
theorem walkingOk_next {links : Links TaskId} {start it : TaskId} {l : List TaskId}
    (hstart : start ∉ l) (hit : it ∉ l)
    (hwalk : (it :: (l ++ [start])).IsChain fun x y => links.next x = y) :
    GroupStage.Ok (links.init it) l
      (if links.next it ≠ start then .walking start (links.next it) else .done) := by
  cases l with
  | nil =>
      have hnext : links.next it = start := (List.isChain_cons_cons.mp hwalk).1
      rw [if_neg (not_not.mpr hnext)]
      exact (rfl : ([] : List TaskId) = [])
  | cons x l =>
      obtain ⟨hnext, hwalk⟩ := List.isChain_cons_cons.mp hwalk
      have hne : x ≠ start := fun heq => hstart (heq ▸ List.mem_cons_self)
      rw [hnext, if_pos hne]
      refine GroupStage.Ok.frame ⟨l, rfl, ?_, hwalk⟩ fun y hy => same_init ?_
      · exact fun hin => hstart (List.mem_cons_of_mem x hin)
      · rintro rfl
        exact hit hy

namespace Barrier

/-- The tasks of `p g` have arrived in generation `g`, are not the last of
it, and are still to be given to the scheduler. -/
structure Inv (s : Barrier) (p : Nat → List TaskId) : Prop where
  towait : 0 < s.towait ∧ s.towait + (s.arrivals s.gen).length = s.count
  group : s.waitingTasks = ⟨(s.arrivals s.gen).head?, (s.arrivals s.gen).length⟩
  stage : ∀ g, (s.stage g).Ok s.links (p g)
  gathering : ∀ g, s.stage g = .gathering ↔ s.gen ≤ g
  past : ∀ g, g < s.gen → ∃ t, s.arrivals g = s.inserted g ++ p g ++ [t]
    ∧ ((∃ group, s.stage g = .held group) → s.phase t = .submitting g)
  full : ∀ g, g < s.gen → (s.arrivals g).length = s.count
  present : s.inserted s.gen = [] ∧ p s.gen = s.arrivals s.gen
  future : ∀ g, s.gen < g → s.arrivals g = [] ∧ s.inserted g = [] ∧ p g = []
  nodup : ∀ g, (s.arrivals g).Nodup
  pending : ∀ t g, t ∈ p g → (s.phase t = .waiting g ∨ s.phase t = .blocked g) ∧ s.wake t = 0
  member : ∀ t g, s.phase t = .waiting g ∨ s.phase t = .blocked g →
    t ∈ s.arrivals g ∧ (t ∈ p g ∨ g < s.gen ∧ s.wake t = 1)
  last : ∀ t g, s.phase t = .submitting g → t ∈ s.arrivals g ∧ s.wake t = 0
  idle : ∀ t, s.phase t = .outside → s.wake t = 0
  returned : ∀ t g, (t, g) ∈ s.returned → g < s.gen ∧ t ∈ s.arrivals g

variable {s s' : Barrier} {p : Nat → List TaskId} {t u : TaskId} {g g' : Nat}

theorem inv_init {count : Nat} (hcount : 0 < count) : (init count).Inv fun _ => [] where
  towait := ⟨hcount, rfl⟩
  group := rfl
  stage := fun g h l hp => by cases hp
  gathering := fun g => iff_of_true rfl (Nat.zero_le g)
  past := fun g hg => absurd hg (Nat.not_lt_zero g)
  full := fun g hg => absurd hg (Nat.not_lt_zero g)
  present := ⟨rfl, rfl⟩
  future := fun _ _ => ⟨rfl, rfl, rfl⟩
  nodup := fun _ => List.nodup_nil
  pending := fun t g hin => by cases hin
  member := fun t g hp => by rcases hp with hp | hp <;> cases hp
  last := fun t g hp => by cases hp
  idle := fun _ _ => rfl
  returned := fun t g hin => by cases hin

/-- A task that does not wait is in no group. -/
theorem Inv.notMem (hinv : s.Inv p) (hw : ∀ g, s.phase t ≠ .waiting g)
    (hb : ∀ g, s.phase t ≠ .blocked g) (g : Nat) : t ∉ p g := by
  intro hin
  rcases (hinv.pending t g hin).1 with hp | hp
  · exact hw g hp
  · exact hb g hp

theorem Inv.notMem_of_wake (hinv : s.Inv p) (hwake : 0 < s.wake t) (g : Nat) : t ∉ p g := by
  intro hin
  have := (hinv.pending t g hin).2
  omega

/-- A task is in one group at a time. -/
theorem Inv.mem_unique (hinv : s.Inv p) (hin : t ∈ p g) (hin' : t ∈ p g') : g = g' := by
  rcases (hinv.pending t g hin).1 with hp | hp <;>
    rcases (hinv.pending t g' hin').1 with hp' | hp' <;>
    simp_all

/-- A group that is to be given to the scheduler belongs to a released
generation. -/
theorem Inv.lt_gen (hinv : s.Inv p) (hst : s.stage g ≠ .gathering) : g < s.gen := by
  by_contra hge
  exact hst ((hinv.gathering g).mpr (Nat.le_of_not_lt hge))

/-- What joining the group does to it, and to the hooks of other tasks. -/
theorem Inv.add (hinv : s.Inv p) (hnotin : t ∉ p s.gen) :
    (s.waitingTasks.add s.links t).1 =
        ⟨(s.arrivals s.gen ++ [t]).head?, (s.arrivals s.gen ++ [t]).length⟩
      ∧ (∀ h l, s.arrivals s.gen ++ [t] = h :: l → IsRing (s.waitingTasks.add s.links t).2 h l)
      ∧ ∀ x, x ≠ t → x ∉ p s.gen → s.links.Same (s.waitingTasks.add s.links t).2 x := by
  have hstage := hinv.stage s.gen
  rw [(hinv.gathering s.gen).mpr (Nat.le_refl s.gen)] at hstage
  rw [hinv.present.2] at hstage hnotin ⊢
  rw [hinv.group]
  cases harr : s.arrivals s.gen with
  | nil =>
      refine ⟨rfl, fun h l heq => ?_, fun x hx _ => same_init hx⟩
      obtain ⟨rfl, rfl⟩ := List.cons.inj heq
      exact isRing_init s.links t
  | cons h l =>
      rw [harr] at hnotin
      have hring := hstage h l harr
      refine ⟨by simp [TaskGroup.add], fun h' l' heq => ?_, fun x hx hxp => same_addTail hring hxp hx⟩
      obtain ⟨rfl, rfl⟩ := List.cons.inj heq
      exact hring.addTail hnotin

theorem Inv.wait (hinv : s.Inv p) (hp : s.phase t = .outside) (hmore : s.towait - 1 ≠ 0) :
    ((s.decTowait t).wait t).Inv (Function.update p s.gen (p s.gen ++ [t])) := by
  have hnotin : ∀ g, t ∉ p g := hinv.notMem (by simp [hp]) (by simp [hp])
  obtain ⟨hgroup, hring, hsame⟩ := hinv.add (hnotin s.gen)
  have hgath := (hinv.gathering s.gen).mpr (Nat.le_refl s.gen)
  have harr : ∀ g, g ≠ s.gen → ((s.decTowait t).wait t).arrivals g = s.arrivals g := fun g hg =>
    Function.update_of_ne hg ..
  have hgen : ((s.decTowait t).wait t).arrivals s.gen = s.arrivals s.gen ++ [t] :=
    Function.update_self ..
  have hphase : ∀ u, u ≠ t → ((s.decTowait t).wait t).phase u = s.phase u := fun u hu =>
    Function.update_of_ne hu ..
  have hself : ((s.decTowait t).wait t).phase t = .waiting s.gen := Function.update_self ..
  refine ⟨?_, ?_, fun g => ?_, hinv.gathering, fun g hg => ?_, fun g hg => ?_, ?_, fun g hg => ?_,
    fun g => ?_, fun u g hin => ?_, fun u g hu => ?_, fun u g hu => ?_, fun u hu => ?_,
    fun u g hin => ?_⟩
  · have := hinv.towait
    show 0 < s.towait - 1 ∧ s.towait - 1 + (((s.decTowait t).wait t).arrivals s.gen).length = s.count
    rw [hgen, List.length_append, List.length_singleton]
    omega
  · show (s.waitingTasks.add s.links t).1 = _
    rw [hgroup]
    show _ = TaskGroup.mk (((s.decTowait t).wait t).arrivals s.gen).head?
      (((s.decTowait t).wait t).arrivals s.gen).length
    rw [hgen]
  · show (s.stage g).Ok (s.waitingTasks.add s.links t).2 _
    by_cases hg : g = s.gen
    · subst hg
      rw [Function.update_self, hgath, hinv.present.2]
      exact hring
    · rw [Function.update_of_ne hg]
      refine (hinv.stage g).frame fun x hx => hsame x ?_ fun hxgen => hg (hinv.mem_unique hx hxgen)
      rintro rfl
      exact hnotin g hx
  · have hne : g ≠ s.gen := Nat.ne_of_lt hg
    rw [harr g hne, Function.update_of_ne hne]
    obtain ⟨u, heq, hu⟩ := hinv.past g hg
    refine ⟨u, heq, fun hheld => ?_⟩
    have := hu hheld
    rw [hphase u (by rintro rfl; rw [hp] at this; cases this)]
    exact this
  · rw [harr g (Nat.ne_of_lt hg)]
    exact hinv.full g hg
  · refine ⟨hinv.present.1, ?_⟩
    show Function.update p s.gen _ s.gen = ((s.decTowait t).wait t).arrivals s.gen
    rw [Function.update_self, hgen, hinv.present.2]
  · have hne : g ≠ s.gen := Nat.ne_of_gt hg
    rw [harr g hne, Function.update_of_ne hne]
    exact hinv.future g hg
  · by_cases hg : g = s.gen
    · subst hg
      rw [hgen]
      refine List.nodup_append.mpr ⟨hinv.nodup s.gen, List.nodup_singleton t, fun a ha b hb => ?_⟩
      rintro rfl
      rw [List.mem_singleton.mp hb, ← hinv.present.2] at ha
      exact hnotin s.gen ha
    · rw [harr g hg]
      exact hinv.nodup g
  · by_cases hut : u = t
    · subst hut
      have hg : g = s.gen := by
        by_contra hne
        rw [Function.update_of_ne hne] at hin
        exact hnotin g hin
      subst hg
      exact ⟨Or.inl hself, hinv.idle u hp⟩
    · rw [hphase u hut]
      refine hinv.pending u g ?_
      by_cases hg : g = s.gen
      · subst hg
        rw [Function.update_self, List.mem_append, List.mem_singleton] at hin
        exact hin.resolve_right hut
      · rwa [Function.update_of_ne hg] at hin
  · by_cases hut : u = t
    · subst hut
      rw [hself] at hu
      obtain rfl : s.gen = g := by simpa using hu
      rw [hgen, Function.update_self]
      exact ⟨by simp, Or.inl (by simp)⟩
    · rw [hphase u hut] at hu
      obtain ⟨hin, hor⟩ := hinv.member u g hu
      by_cases hg : g = s.gen
      · subst hg
        rw [hgen, Function.update_self]
        exact ⟨List.mem_append_left _ hin, hor.imp_left (List.mem_append_left _)⟩
      · rw [harr g hg, Function.update_of_ne hg]
        exact ⟨hin, hor⟩
  · have hut : u ≠ t := by
      rintro rfl
      rw [hself] at hu
      cases hu
    rw [hphase u hut] at hu
    obtain ⟨hin, hwake⟩ := hinv.last u g hu
    refine ⟨?_, hwake⟩
    by_cases hg : g = s.gen
    · subst hg
      rw [hgen]
      exact List.mem_append_left _ hin
    · rwa [harr g hg]
  · have hut : u ≠ t := by
      rintro rfl
      rw [hself] at hu
      cases hu
    rw [hphase u hut] at hu
    exact hinv.idle u hu
  · obtain ⟨hg, hin⟩ := hinv.returned u g hin
    rw [harr g (Nat.ne_of_lt hg)]
    exact ⟨hg, hin⟩

/-- The barrier after the last arrival of a generation, with the group in
stage `st` and the last task in phase `ph`. -/
theorem Inv.restore {st : GroupStage} {ph : BarrierPhase} {r : List (TaskId × Nat)} (hinv : s.Inv p)
    (hp : s.phase t = .outside) (hlast : s.towait - 1 = 0) (hst : st.Ok s.links (p s.gen))
    (hne : st ≠ .gathering)
    (hph : ph = .submitting s.gen ∨ ph = .outside ∧ ∀ group, st ≠ .held group)
    (hr : ∀ x ∈ r, x ∈ s.returned ∨ x = (t, s.gen)) :
    Inv { s with
      towait := s.count
      waitingTasks := .init
      gen := s.gen + 1
      arrivals := Function.update s.arrivals s.gen (s.arrivals s.gen ++ [t])
      stage := Function.update s.stage s.gen st
      phase := Function.update s.phase t ph
      returned := r } p := by
  have hnotin : ∀ g, t ∉ p g := hinv.notMem (by simp [hp]) (by simp [hp])
  have htowait := hinv.towait
  have hnext := hinv.future (s.gen + 1) (Nat.lt_succ_self s.gen)
  have hsub : ∀ u g, u ∈ s.arrivals g →
      u ∈ Function.update s.arrivals s.gen (s.arrivals s.gen ++ [t]) g := by
    intro u g hin
    by_cases hg : g = s.gen
    · subst hg
      rw [Function.update_self]
      exact List.mem_append_left _ hin
    · rwa [Function.update_of_ne hg]
  refine ⟨?_, ?_, fun g => ?_, fun g => ?_, fun g hg => ?_, fun g hg => ?_, ?_, fun g hg => ?_,
    fun g => ?_, fun u g hin => ?_, fun u g hu => ?_, fun u g hu => ?_, fun u hu => ?_,
    fun u g hin => ?_⟩
  · simp only [Function.update_of_ne (Nat.succ_ne_self s.gen), hnext.1, List.length_nil]
    omega
  · simp only [Function.update_of_ne (Nat.succ_ne_self s.gen), hnext.1]
    rfl
  · by_cases hg : g = s.gen
    · subst hg
      simp only [Function.update_self]
      exact hst
    · simp only [Function.update_of_ne hg]
      exact hinv.stage g
  · by_cases hg : g = s.gen
    · subst hg
      simp only [Function.update_self]
      exact iff_of_false hne (by omega)
    · simp only [Function.update_of_ne hg, hinv.gathering g]
      omega
  · have hlt : g < s.gen + 1 := hg
    by_cases hgen : g = s.gen
    · subst hgen
      simp only [Function.update_self]
      refine ⟨t, by rw [hinv.present.1, hinv.present.2, List.nil_append], ?_⟩
      rintro ⟨group, rfl⟩
      rw [Function.update_self]
      exact hph.resolve_right fun hout => hout.2 group rfl
    · simp only [Function.update_of_ne hgen]
      obtain ⟨u, heq, hu⟩ := hinv.past g (by omega)
      refine ⟨u, heq, fun hheld => ?_⟩
      have hsubm := hu hheld
      have hut : u ≠ t := by
        rintro rfl
        rw [hp] at hsubm
        cases hsubm
      rw [Function.update_of_ne hut]
      exact hsubm
  · have hlt : g < s.gen + 1 := hg
    by_cases hgen : g = s.gen
    · subst hgen
      simp only [Function.update_self, List.length_append, List.length_singleton]
      omega
    · simp only [Function.update_of_ne hgen]
      exact hinv.full g (by omega)
  · simp only [Function.update_of_ne (Nat.succ_ne_self s.gen)]
    exact ⟨hnext.2.1, hnext.2.2.trans hnext.1.symm⟩
  · have hlt : s.gen + 1 < g := hg
    simp only [Function.update_of_ne (show g ≠ s.gen by omega)]
    exact hinv.future g (by omega)
  · by_cases hg : g = s.gen
    · subst hg
      simp only [Function.update_self]
      refine List.nodup_append.mpr ⟨hinv.nodup s.gen, List.nodup_singleton t, fun a ha b hb => ?_⟩
      rintro rfl
      rw [List.mem_singleton.mp hb, ← hinv.present.2] at ha
      exact hnotin s.gen ha
    · simp only [Function.update_of_ne hg]
      exact hinv.nodup g
  · have hut : u ≠ t := by
      rintro rfl
      exact hnotin g hin
    simp only [Function.update_of_ne hut]
    exact hinv.pending u g hin
  · have hut : u ≠ t := by
      rintro rfl
      simp only [Function.update_self] at hu
      rcases hph with rfl | ⟨rfl, -⟩ <;> rcases hu with hu | hu <;> cases hu
    simp only [Function.update_of_ne hut] at hu
    obtain ⟨hin, hor⟩ := hinv.member u g hu
    exact ⟨hsub u g hin, hor.imp_right fun hand => ⟨Nat.lt_succ_of_lt hand.1, hand.2⟩⟩
  · by_cases hut : u = t
    · subst hut
      simp only [Function.update_self] at hu
      rcases hph with rfl | ⟨rfl, -⟩
      · obtain rfl : s.gen = g := by simpa using hu
        simp only [Function.update_self]
        exact ⟨by simp, hinv.idle u hp⟩
      · cases hu
    · simp only [Function.update_of_ne hut] at hu
      obtain ⟨hin, hwake⟩ := hinv.last u g hu
      exact ⟨hsub u g hin, hwake⟩
  · by_cases hut : u = t
    · subst hut
      exact hinv.idle u hp
    · simp only [Function.update_of_ne hut] at hu
      exact hinv.idle u hu
  · rcases hr _ hin with hin | heq
    · obtain ⟨hg, harr⟩ := hinv.returned u g hin
      exact ⟨Nat.lt_succ_of_lt hg, hsub u g harr⟩
    · obtain ⟨rfl, rfl⟩ := Prod.mk.inj heq
      refine ⟨Nat.lt_succ_self _, ?_⟩
      simp only [Function.update_self, List.mem_append, List.mem_singleton, or_true]

theorem Inv.release (hinv : s.Inv p) (hp : s.phase t = .outside) (hlast : s.towait - 1 = 0) :
    ((s.decTowait t).release t).Inv p := by
  have hst := hinv.stage s.gen
  rw [(hinv.gathering s.gen).mpr (Nat.le_refl s.gen)] at hst
  have hpend := hinv.present.2
  unfold Barrier.release
  split
  · rename_i hempty
    have hnil : p s.gen = [] := by
      have : s.waitingTasks.empty = true := hempty
      rw [hinv.group, TaskGroup.empty, beq_iff_eq] at this
      rw [hpend]
      exact List.length_eq_zero_iff.mp this
    exact hinv.restore hp hlast hnil (by simp) (Or.inr ⟨rfl, by simp⟩) fun x hx => by
      simpa [return', Barrier.restore, setStage, setPhase, decTowait] using hx
  · rename_i hempty
    have hgroup := hinv.group
    cases harr : s.arrivals s.gen with
    | nil =>
        rw [harr] at hgroup
        refine absurd ?_ hempty
        show s.waitingTasks.empty = true
        rw [hgroup]
        rfl
    | cons h l =>
        rw [harr] at hgroup hpend
        refine hinv.restore hp hlast ⟨h, l, ?_, hpend, hst h l hpend⟩ (by simp) (Or.inl rfl)
          fun x hx => Or.inl hx
        show s.waitingTasks.headTask = some h
        rw [hgroup]
        rfl

theorem Inv.arrive (hinv : s.Inv p) (hp : s.phase t = .outside) : ∃ p', (s.arrive t).Inv p' := by
  unfold Barrier.arrive
  split
  · rename_i hmore
    exact ⟨_, hinv.wait hp hmore⟩
  · rename_i hlast
    exact ⟨p, hinv.release hp (not_not.mp hlast)⟩

/-- The group moves on, and its tasks stay in it. -/
theorem Inv.setStage {st : GroupStage} (hinv : s.Inv p) (hg : s.stage g ≠ .gathering)
    (hst : st.Ok s.links (p g)) (hne : st ≠ .gathering) (hheld : ∀ group, st ≠ .held group) :
    (s.setStage g st).Inv p := by
  refine ⟨hinv.towait, hinv.group, fun g' => ?_, fun g' => ?_, fun g' hlt => ?_, hinv.full,
    hinv.present, hinv.future, hinv.nodup, hinv.pending, hinv.member, hinv.last, hinv.idle,
    hinv.returned⟩
  · by_cases hg' : g' = g
    · subst hg'
      simp only [Barrier.setStage, Function.update_self]
      exact hst
    · simp only [Barrier.setStage, Function.update_of_ne hg']
      exact hinv.stage g'
  · by_cases hg' : g' = g
    · subst hg'
      simp only [Barrier.setStage, Function.update_self]
      exact iff_of_false hne fun hle => hg ((hinv.gathering g').mpr hle)
    · simp only [Barrier.setStage, Function.update_of_ne hg']
      exact hinv.gathering g'
  · obtain ⟨u, heq, hu⟩ := hinv.past g' hlt
    refine ⟨u, heq, ?_⟩
    rintro ⟨group, hgroup⟩
    refine hu ⟨group, ?_⟩
    have hg' : g' ≠ g := by
      rintro rfl
      simp only [Barrier.setStage, Function.update_self] at hgroup
      exact hheld group hgroup
    simpa only [Barrier.setStage, Function.update_of_ne hg'] using hgroup

/-- A task of generation `g` leaves `nosv_barrier_wait`, with its wake-up
taken. -/
theorem Inv.return' {w : TaskId → Nat} (hinv : s.Inv p) (hnotin : ∀ g, t ∉ p g) (hg : g < s.gen)
    (harr : t ∈ s.arrivals g) (hheld : ∀ g group, s.phase t = .submitting g → s.stage g ≠ .held group)
    (hwake : w t = 0) (hw : ∀ u, u ≠ t → w u = s.wake u) : Inv { s.return' t g with wake := w } p := by
  refine ⟨hinv.towait, hinv.group, hinv.stage, hinv.gathering, fun g' hlt => ?_, hinv.full,
    hinv.present, hinv.future, hinv.nodup, fun u g' hin => ?_, fun u g' hu => ?_, fun u g' hu => ?_,
    fun u hu => ?_, fun u g' hin => ?_⟩
  · obtain ⟨u, heq, hu⟩ := hinv.past g' hlt
    refine ⟨u, heq, ?_⟩
    rintro ⟨group, hgroup⟩
    have hsubm := hu ⟨group, hgroup⟩
    have hut : u ≠ t := by
      rintro rfl
      exact hheld g' group hsubm hgroup
    simpa only [Barrier.return', setPhase, Function.update_of_ne hut] using hsubm
  · have hut : u ≠ t := by
      rintro rfl
      exact hnotin g' hin
    simp only [Barrier.return', setPhase, Function.update_of_ne hut, hw u hut]
    exact hinv.pending u g' hin
  · have hut : u ≠ t := by
      rintro rfl
      simp [Barrier.return', setPhase] at hu
    simp only [Barrier.return', setPhase, Function.update_of_ne hut, hw u hut] at hu ⊢
    exact hinv.member u g' hu
  · have hut : u ≠ t := by
      rintro rfl
      simp [Barrier.return', setPhase] at hu
    simp only [Barrier.return', setPhase, Function.update_of_ne hut, hw u hut] at hu ⊢
    exact hinv.last u g' hu
  · by_cases hut : u = t
    · subst hut
      exact hwake
    · simp only [Barrier.return', setPhase, Function.update_of_ne hut, hw u hut] at hu ⊢
      exact hinv.idle u hu
  · simp only [Barrier.return', List.mem_append, List.mem_singleton, Prod.mk.injEq] at hin
    rcases hin with hin | ⟨rfl, rfl⟩
    · exact hinv.returned u g' hin
    · exact ⟨hg, harr⟩

theorem Inv.submit (hinv : s.Inv p) (hstep : s.step (.submit t) = some s') : s'.Inv p := by
  simp only [step] at hstep
  split at hstep
  · rename_i g hp
    split at hstep
    · rename_i h n hst
      obtain rfl := Option.some.inj hstep
      have hok := hinv.stage g
      rw [hst] at hok
      obtain ⟨h', l, hhead, hpend, hring⟩ := hok
      obtain rfl := Option.some.inj hhead
      have hgath : s.stage g ≠ .gathering := by simp [hst]
      have hst' : (s.setStage g (.queued h)).Inv p :=
        hinv.setStage hgath ⟨l, hpend, hring⟩ (by simp) (by simp)
      obtain ⟨harr, hwake⟩ := hinv.last t g hp
      refine hst'.return' (hinv.notMem (by simp [hp]) (by simp [hp])) (hinv.lt_gen hgath) harr
        (fun g' group hp' => ?_) hwake fun _ _ => rfl
      obtain rfl : g = g' := by
        have := hp.symm.trans hp'
        simpa using this
      simp [Barrier.setStage]
    · cases hstep
  · cases hstep

theorem Inv.pop (hinv : s.Inv p) (hstep : s.step (.pop g) = some s') : s'.Inv p := by
  simp only [step] at hstep
  split at hstep
  · rename_i h hst
    obtain rfl := Option.some.inj hstep
    have hok := hinv.stage g
    rw [hst] at hok
    obtain ⟨l, hpend, hring⟩ := hok
    have hstart := (List.nodup_cons.mp hring.nodup).1
    exact hinv.setStage (by simp [hst]) ⟨l, hpend, hstart, hring.walk⟩ (by simp) (by simp)
  · cases hstep

/-- The loop over a group passes task `it`. -/
theorem Inv.insert {start it : TaskId} (hinv : s.Inv p) (hst : s.stage g = .walking start it) :
    ∃ l, p g = it :: l ∧ (s.insert g start it).Inv (Function.update p g l) := by
  have hok := hinv.stage g
  rw [hst] at hok
  obtain ⟨l, hpend, hstart, hwalk⟩ := hok
  have hlt : g < s.gen := hinv.lt_gen (by simp [hst])
  have hin : it ∈ p g := hpend ▸ List.mem_cons_self
  obtain ⟨hphase, hwake⟩ := hinv.pending it g hin
  have hnd : (it :: l).Nodup := by
    obtain ⟨u, heq, -⟩ := hinv.past g hlt
    have hnd := hinv.nodup g
    rw [heq, ← hpend] at *
    exact (List.nodup_append.mp (List.nodup_append.mp hnd).1).2.1
  have hitl : it ∉ l := (List.nodup_cons.mp hnd).1
  -- the hooks that the group still needs are those of other tasks
  have hother : ∀ u g', u ∈ Function.update p g l g' → u ≠ it ∧ u ∈ p g' := by
    intro u g' hu
    by_cases hg' : g' = g
    · subst hg'
      rw [Function.update_self] at hu
      exact ⟨fun heq => hitl (heq ▸ hu), hpend ▸ List.mem_cons_of_mem it hu⟩
    · rw [Function.update_of_ne hg'] at hu
      refine ⟨?_, hu⟩
      rintro rfl
      exact hg' (hinv.mem_unique hu hin)
  have hstage : ∀ g', g' ≠ g → (s.insert g start it).stage g' = s.stage g' := fun g' hg' =>
    Function.update_of_ne hg' ..
  have hself : (s.insert g start it).stage g =
      if s.links.next it ≠ start then .walking start (s.links.next it) else .done :=
    Function.update_self ..
  refine ⟨l, hpend, hinv.towait, hinv.group, fun g' => ?_, fun g' => ?_, fun g' hlt' => ?_, hinv.full,
    ?_, fun g' hlt' => ?_, hinv.nodup, fun u g' hu => ?_, fun u g' hu => ?_, fun u g' hu => ?_,
    fun u hu => ?_, hinv.returned⟩
  · by_cases hg' : g' = g
    · subst hg'
      rw [hself, Function.update_self]
      exact walkingOk_next hstart hitl hwalk
    · rw [hstage g' hg', Function.update_of_ne hg']
      refine (hinv.stage g').frame fun x hx => same_init ?_
      exact (hother x g' (by rwa [Function.update_of_ne hg'])).1
  · by_cases hg' : g' = g
    · subst hg'
      rw [hself]
      refine iff_of_false ?_ (Nat.not_le_of_lt hlt)
      split <;> simp
    · rw [hstage g' hg']
      exact hinv.gathering g'
  · obtain ⟨u, heq, hu⟩ := hinv.past g' hlt'
    by_cases hg' : g' = g
    · subst hg'
      refine ⟨u, ?_, ?_⟩
      · show s.arrivals g' = Function.update s.inserted g' _ g' ++ _ ++ _
        rw [heq, hpend, Function.update_self, Function.update_self, List.append_assoc _ [it],
          List.singleton_append]
      · rintro ⟨group, hgroup⟩
        rw [hself] at hgroup
        split at hgroup <;> cases hgroup
    · refine ⟨u, ?_, ?_⟩
      · show s.arrivals g' = Function.update s.inserted g _ g' ++ _ ++ _
        rw [heq, Function.update_of_ne hg', Function.update_of_ne hg']
      · rw [hstage g' hg']
        exact hu
  · have hne : s.gen ≠ g := Nat.ne_of_gt hlt
    show Function.update s.inserted g _ s.gen = _ ∧ Function.update p g l s.gen = _
    rw [Function.update_of_ne hne, Function.update_of_ne hne]
    exact hinv.present
  · have hne : g' ≠ g := fun heq => absurd hlt (Nat.lt_asymm (heq ▸ hlt'))
    show _ ∧ Function.update s.inserted g _ g' = _ ∧ _
    rw [Function.update_of_ne hne, Function.update_of_ne hne]
    exact hinv.future g' hlt'
  · obtain ⟨hne, hu⟩ := hother u g' hu
    show _ ∧ Function.update s.wake it _ u = 0
    rw [Function.update_of_ne hne]
    exact hinv.pending u g' hu
  · obtain ⟨harr, hor⟩ := hinv.member u g' hu
    refine ⟨harr, ?_⟩
    show _ ∨ g' < s.gen ∧ Function.update s.wake it _ u = 1
    by_cases hne : u = it
    · subst hne
      obtain rfl : g' = g := by
        have hu : s.phase u = .waiting g' ∨ s.phase u = .blocked g' := hu
        rcases hu with hu | hu <;> rcases hphase with hp | hp <;> simp_all
      exact Or.inr ⟨hlt, by rw [Function.update_self, hwake]⟩
    · rw [Function.update_of_ne hne]
      refine hor.imp_left fun hup => ?_
      by_cases hg' : g' = g
      · subst hg'
        rw [hpend] at hup
        rw [Function.update_self]
        exact (List.mem_cons.mp hup).resolve_left hne
      · rwa [Function.update_of_ne hg']
  · have hne : u ≠ it := by
      rintro rfl
      have hu : s.phase u = .submitting g' := hu
      rcases hphase with hp | hp <;> rw [hp] at hu <;> cases hu
    show _ ∧ Function.update s.wake it _ u = 0
    rw [Function.update_of_ne hne]
    exact hinv.last u g' hu
  · have hne : u ≠ it := by
      rintro rfl
      have hu : s.phase u = .outside := hu
      rcases hphase with hp | hp <;> rw [hp] at hu <;> cases hu
    show Function.update s.wake it _ u = 0
    rw [Function.update_of_ne hne]
    exact hinv.idle u hu

theorem Inv.block (hinv : s.Inv p) (hp : s.phase t = .waiting g) :
    (s.setPhase t (.blocked g)).Inv p := by
  have hphase : ∀ u, u ≠ t → (s.setPhase t (.blocked g)).phase u = s.phase u := fun u hu =>
    Function.update_of_ne hu ..
  have hself : (s.setPhase t (.blocked g)).phase t = .blocked g := Function.update_self ..
  refine ⟨hinv.towait, hinv.group, hinv.stage, hinv.gathering, fun g' hlt => ?_, hinv.full,
    hinv.present, hinv.future, hinv.nodup, fun u g' hin => ?_, fun u g' hu => ?_, fun u g' hu => ?_,
    fun u hu => ?_, hinv.returned⟩
  · obtain ⟨u, heq, hu⟩ := hinv.past g' hlt
    refine ⟨u, heq, fun hheld => ?_⟩
    have hsubm := hu hheld
    have hut : u ≠ t := by
      rintro rfl
      rw [hp] at hsubm
      cases hsubm
    rwa [hphase u hut]
  · obtain ⟨hor, hwake⟩ := hinv.pending u g' hin
    refine ⟨?_, hwake⟩
    by_cases hut : u = t
    · subst hut
      rw [hp] at hor
      obtain rfl : g = g' := by simpa using hor
      exact Or.inr hself
    · rwa [hphase u hut]
  · by_cases hut : u = t
    · subst hut
      rw [hself] at hu
      obtain rfl : g = g' := by simpa using hu
      exact hinv.member u g (Or.inl hp)
    · rw [hphase u hut] at hu
      exact hinv.member u g' hu
  · have hut : u ≠ t := by
      rintro rfl
      rw [hself] at hu
      cases hu
    rw [hphase u hut] at hu
    exact hinv.last u g' hu
  · have hut : u ≠ t := by
      rintro rfl
      rw [hself] at hu
      cases hu
    rw [hphase u hut] at hu
    exact hinv.idle u hu

/-- The scheduler writes the hook of a task that it has. -/
theorem Inv.relink {links : Links TaskId} (hinv : s.Inv p) (hwake : 0 < s.wake t)
    (hsame : ∀ x, x ≠ t → s.links.Same links x) : Inv { s with links := links } p := by
  refine ⟨hinv.towait, hinv.group, fun g => ?_, hinv.gathering, hinv.past, hinv.full,
    hinv.present, hinv.future, hinv.nodup, hinv.pending, hinv.member, hinv.last, hinv.idle,
    hinv.returned⟩
  refine (hinv.stage g).frame fun x hx => hsame x ?_
  rintro rfl
  exact hinv.notMem_of_wake hwake g hx

/-- A task takes its wake-up. -/
theorem Inv.resume (hinv : s.Inv p) (hwake : 0 < s.wake t) (hp : s.phase t = .blocked g) :
    (s.resume t g).Inv p := by
  have hnotin := hinv.notMem_of_wake hwake
  obtain ⟨harr, hor⟩ := hinv.member t g (Or.inr hp)
  obtain ⟨hlt, hone⟩ := hor.resolve_left (hnotin g)
  have hrelink := hinv.relink hwake fun x hx => same_init (m := s.links) hx
  refine hrelink.return' hnotin hlt harr (fun g' group hp' => ?_) ?_ fun u hu =>
    Function.update_of_ne hu ..
  · rw [show s.phase t = .submitting g' from hp'] at hp
    cases hp
  · rw [Function.update_self, hone]

theorem inv_step {m : BarrierMove} (hstep : s.step m = some s') (hinv : ∃ p, s.Inv p) :
    ∃ p, s'.Inv p := by
  obtain ⟨p, hinv⟩ := hinv
  cases m with
  | arrive t =>
      obtain ⟨hp, heq⟩ := Option.ite_none_right_eq_some.mp hstep
      obtain rfl := Option.some.inj heq
      exact hinv.arrive hp
  | submit t => exact ⟨p, hinv.submit hstep⟩
  | pop g => exact ⟨p, hinv.pop hstep⟩
  | insert g =>
      simp only [step] at hstep
      split at hstep
      · rename_i start it hst
        obtain rfl := Option.some.inj hstep
        obtain ⟨l, -, hinv'⟩ := hinv.insert hst
        exact ⟨_, hinv'⟩
      · cases hstep
  | block t =>
      simp only [step] at hstep
      split at hstep
      · rename_i g hp
        obtain rfl := Option.some.inj hstep
        exact ⟨p, hinv.block hp⟩
      · cases hstep
  | resume t =>
      obtain ⟨hwake, hstep⟩ := Option.ite_none_right_eq_some.mp hstep
      split at hstep
      · rename_i g hp
        obtain rfl := Option.some.inj hstep
        exact ⟨p, hinv.resume hwake hp⟩
      · cases hstep
  | relink t next prev =>
      obtain ⟨hwake, heq⟩ := Option.ite_none_right_eq_some.mp hstep
      obtain rfl := Option.some.inj heq
      exact ⟨p, hinv.relink hwake fun x hx =>
        ⟨Function.update_of_ne hx .., Function.update_of_ne hx ..⟩⟩

/-! ## What is left of a released generation can be submitted -/

theorem Completes.of_step {m : BarrierMove} (hstep : s.step m = some s')
    (harr : s'.arrivals = s.arrivals) (hcompl : s'.Completes g) : s.Completes g := by
  obtain ⟨moves, s'', hrun, harr', hins⟩ := hcompl
  refine ⟨m :: moves, s'', ?_, harr'.trans (congrFun harr g), ?_⟩
  · rw [run, hstep]
    exact hrun
  · rw [hins, harr]

theorem Inv.completes_walk {l : List TaskId} (hinv : s.Inv p) (hpend : p g = l)
    (hst : s.stage g = .done ∨ ∃ start it, s.stage g = .walking start it) : s.Completes g := by
  -- the loop ends since it leaves one task less to pass each time
  induction l generalizing s p with
  | nil =>
      have hlt : g < s.gen := hinv.lt_gen (by rcases hst with hst | ⟨_, _, hst⟩ <;> simp [hst])
      obtain ⟨u, heq, -⟩ := hinv.past g hlt
      refine ⟨[], s, rfl, rfl, ?_⟩
      rw [heq, hpend, List.append_nil, List.dropLast_concat]
  | cons it l ih =>
      have hok := hinv.stage g
      rcases hst with hst | ⟨start, it', hst⟩
      · rw [hst, hpend] at hok
        cases hok
      · obtain ⟨l', hpend', hinv'⟩ := hinv.insert hst
        obtain ⟨rfl, rfl⟩ := List.cons.inj (hpend.symm.trans hpend')
        have hstep : s.step (.insert g) = some (s.insert g start it) := by simp only [step, hst]
        refine Completes.of_step hstep rfl (ih hinv' (Function.update_self ..) ?_)
        simp only [Barrier.insert, Barrier.setStage, Function.update_self]
        split
        · exact Or.inr ⟨_, _, rfl⟩
        · exact Or.inl rfl

theorem Inv.completes_queued {h : TaskId} (hinv : s.Inv p) (hst : s.stage g = .queued h) :
    s.Completes g := by
  have hstep : s.step (.pop g) = some (s.setStage g (.walking h h)) := by simp only [step, hst]
  refine Completes.of_step hstep rfl ((hinv.pop hstep).completes_walk rfl (Or.inr ⟨h, h, ?_⟩))
  exact Function.update_self ..

theorem Inv.completes (hinv : s.Inv p) (hrel : s.Released g) : s.Completes g := by
  cases hst : s.stage g with
  | gathering => exact absurd hst hrel
  | held group =>
      have hok := hinv.stage g
      rw [hst] at hok
      obtain ⟨h, l, hhead, hpend, hring⟩ := hok
      obtain ⟨u, -, hu⟩ := hinv.past g (hinv.lt_gen hrel)
      have hstep : s.step (.submit u) = some ((s.setStage g (.queued h)).return' u g) := by
        obtain ⟨head, n⟩ := group
        obtain rfl : head = some h := hhead
        simp only [step, hu ⟨_, hst⟩, hst]
      refine Completes.of_step hstep rfl ((hinv.submit hstep).completes_queued (h := h) ?_)
      exact Function.update_self ..
  | queued h => exact hinv.completes_queued hst
  | walking start it => exact hinv.completes_walk rfl (Or.inr ⟨start, it, hst⟩)
  | done => exact hinv.completes_walk rfl (Or.inl hst)

theorem Inv.follows (hinv : s.Inv p) : BarrierFollows s := by
  have htowait := hinv.towait
  refine ⟨by omega, ⟨⟨hinv.group, ?_⟩, by omega⟩, fun t hin => ?_, fun g => ?_, hinv.nodup,
    fun g => ?_, fun g => hinv.completes, fun t g hin => ?_⟩
  · have hok := hinv.stage s.gen
    rw [(hinv.gathering s.gen).mpr (Nat.le_refl s.gen), hinv.present.2] at hok
    exact hok
  · rw [← hinv.present.2] at hin
    exact (hinv.pending t s.gen hin).1
  · rw [Released, ne_eq, hinv.gathering g, Nat.not_le]
    rcases Nat.lt_trichotomy g s.gen with hlt | rfl | hgt
    · exact iff_of_true hlt (hinv.full g hlt)
    · exact iff_of_false (Nat.lt_irrefl s.gen) (by omega)
    · refine iff_of_false (by omega) ?_
      rw [(hinv.future g hgt).1, List.length_nil]
      omega
  · rcases Nat.lt_trichotomy g s.gen with hlt | rfl | hgt
    · obtain ⟨u, heq, -⟩ := hinv.past g hlt
      rw [heq, List.dropLast_concat]
      exact List.prefix_append ..
    · rw [hinv.present.1]
      exact List.nil_prefix
    · rw [(hinv.future g hgt).2.1]
      exact List.nil_prefix
  · obtain ⟨hlt, harr⟩ := hinv.returned t g hin
    exact ⟨harr, hinv.full g hlt⟩

end Barrier

/-- A barrier for `count` tasks releases whole generations, in the order
in which their tasks have arrived, and nobody before its generation is
complete. -/
theorem barrier_follows (count : Nat) (hcount : 0 < count) (moves : List BarrierMove) (s : Barrier)
    (hrun : run Barrier.step (.init count) moves = some s) : BarrierFollows s := by
  obtain ⟨p, hinv⟩ := invariant (I := fun s => ∃ p, s.Inv p) (fun _ _ _ => Barrier.inv_step) hrun
    ⟨_, Barrier.inv_init hcount⟩
  exact hinv.follows

/-- Two generations of three; a task of the first waits in the second
before another one of the first has been passed by the scheduler. -/
theorem barrier_follows_reuse :
    ∃ s, run Barrier.step (.init 3) [.arrive 1, .block 1, .arrive 2, .arrive 3, .submit 3, .pop 0,
        .insert 0, .resume 1, .arrive 1, .insert 0, .block 2, .resume 2, .arrive 2, .arrive 3, .submit 3]
        = some s
      ∧ BarrierFollows s ∧ s.inserted 0 = [1, 2] ∧ s.arrivals 1 = [1, 2, 3] := by
  have heval : (run Barrier.step (.init 3) [.arrive 1, .block 1, .arrive 2, .arrive 3, .submit 3,
      .pop 0, .insert 0, .resume 1, .arrive 1, .insert 0, .block 2, .resume 2, .arrive 2, .arrive 3,
      .submit 3]).map (fun s => (s.inserted 0, s.arrivals 1)) = some ([1, 2], [1, 2, 3]) := by
    decide +kernel
  obtain ⟨s, hrun, hval⟩ := Option.map_eq_some_iff.mp heval
  obtain ⟨hins, harr⟩ := Prod.mk.injEq .. |>.mp hval
  exact ⟨s, hrun, barrier_follows 3 (by decide) _ s hrun, hins, harr⟩

end Nosv
