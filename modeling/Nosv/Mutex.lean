import Mathlib.Data.List.Basic
import Nosv.Lib.Ring
import Nosv.Lib.Run
import Nosv.Task

/-!
# Mutexes

`nosv_mutex_lock`, `nosv_mutex_trylock` and `nosv_mutex_unlock` on one
mutex, by any number of tasks that are not parallel; each section under
the spinlock is one step. A task that finds the mutex taken queues itself,
leaves the spinlock and only then blocks (`block`). An unlock takes the
first waiter off the list, leaves the spinlock and only then hands it to
the scheduler, or to `worker_yield_to`, which submits the unlocking task
first (`give`). In between the waiter may block, or not have blocked yet.

The list is the circle of the `list_hook`s in shared memory. While a task
is in the hands of the scheduler, the scheduler links its hook as it likes
(`relink`) and resets it when it takes the task out.

`nosv_cond_wait` unlocks without `worker_yield_to`, and then does not use
the mutex until it locks it again.
-/

namespace Nosv

open Run Ring

/-- The hooks that the list of a mutex may be made of. -/
inductive MutexHook where
  /-- `mutex->list` -/
  | list
  /-- `task->list_hook` -/
  | task (t : TaskId)
  deriving DecidableEq

inductive MutexPhase where
  /-- does not own the mutex, and is in no call for it -/
  | outside
  | owning
  /-- in `nosv_mutex_lock`, queued, on its way to `worker_yield` -/
  | queuing
  /-- in `nosv_mutex_lock`, blocked -/
  | blocked
  /-- in `nosv_mutex_unlock`, about to hand on task `u` -/
  | giving (u : TaskId) (yields : Bool)
  /-- in `worker_yield_to`, submitted, about to switch to task `u` -/
  | switching (u : TaskId)
  /-- in `worker_yield_to`, blocked -/
  | yielded
  deriving DecidableEq

structure Mutex where
  links : Links MutexHook
  taken : Bool
  phase : TaskId → MutexPhase
  /-- how often the task has been given to the scheduler or to a worker, and
  not been resumed since -/
  wake : TaskId → Nat
  /-- the tasks that have queued, in order -/
  queued : List TaskId
  /-- the tasks that an unlock has taken off the list, in order -/
  granted : List TaskId
  /-- how often a task has been handed on by an unlock -/
  given : TaskId → Nat

inductive MutexMove where
  | lock (t : TaskId)
  | trylock (t : TaskId)
  | block (t : TaskId)
  | unlock (t : TaskId) (yields : Bool)
  | give (t : TaskId)
  | resume (t : TaskId)
  | relink (t : TaskId) (next prev : MutexHook)

namespace Mutex

/-- `nosv_mutex_init`, with hooks as `nosv_create` leaves them. -/
def init : Mutex where
  links := .unlinked
  taken := false
  phase := fun _ => .outside
  wake := fun _ => 0
  queued := []
  granted := []
  given := fun _ => 0

def setPhase (s : Mutex) (t : TaskId) (p : MutexPhase) : Mutex :=
  { s with phase := Function.update s.phase t p }

/-- The task is given to the scheduler, or to a worker. -/
def wakeUp (s : Mutex) (t : TaskId) : Mutex :=
  { s with wake := Function.update s.wake t (s.wake t + 1) }

/-- The mutex is free and the task takes it. -/
def take (s : Mutex) (t : TaskId) : Mutex := { s.setPhase t .owning with taken := true }

/-- The spinlock section of `nosv_mutex_lock`. -/
def lock (s : Mutex) (t : TaskId) : Mutex :=
  if s.taken then
    { s.setPhase t .queuing with
      links := s.links.addTail .list (.task t), queued := s.queued ++ [t] }
  else s.take t

/-- `nosv_mutex_trylock`; the first component tells success. -/
def trylock (s : Mutex) (t : TaskId) : Bool × Mutex :=
  if s.taken then (false, s) else (true, s.take t)

/-- The spinlock section of `nosv_mutex_unlock_internal`; `yields` tells
whether the waiter will be given the CPU. -/
def unlock (s : Mutex) (t : TaskId) (yields : Bool) : Mutex :=
  match s.links.popFront .list with
  | (some (.task u), links) =>
      { s.setPhase t (.giving u yields) with links := links, granted := s.granted ++ [u] }
  | (_, links) => { s.setPhase t .outside with links := links, taken := false }

/-- Task `u` is handed on, and the task that did it goes to phase `p`. -/
def handOn (s : Mutex) (t u : TaskId) (p : MutexPhase) : Mutex :=
  { (s.setPhase t p).wakeUp u with given := Function.update s.given u (s.given u + 1) }

/-- Task `t` is resumed in phase `p`; the scheduler has reset its hook. -/
def resume (s : Mutex) (t : TaskId) (p : MutexPhase) : Mutex :=
  { s.setPhase t p with
    wake := Function.update s.wake t (s.wake t - 1), links := s.links.init (.task t) }

def step (s : Mutex) : MutexMove → Option Mutex
  | .lock t => if s.phase t = .outside then some (s.lock t) else none
  | .trylock t => if s.phase t = .outside then some (s.trylock t).2 else none
  | .block t => if s.phase t = .queuing then some (s.setPhase t .blocked) else none
  | .unlock t yields => if s.phase t = .owning then some (s.unlock t yields) else none
  | .give t =>
      match s.phase t with
      | .giving u false => some (s.handOn t u .outside)
      | .giving u true => some ((s.setPhase t (.switching u)).wakeUp t)
      | .switching u => some (s.handOn t u .yielded)
      | _ => none
  | .resume t =>
      if 0 < s.wake t then
        match s.phase t with
        | .blocked => some (s.resume t .owning)
        | .yielded => some (s.resume t .outside)
        | _ => none
      else none
  | .relink t next prev =>
      if 0 < s.wake t then
        some { s with links := ⟨Function.update s.links.next (.task t) next,
                                Function.update s.links.prev (.task t) prev⟩ }
      else none

/-- The tasks that have queued and that no unlock has taken off the list. -/
def waiting (s : Mutex) : List TaskId := s.queued.drop s.granted.length

def Owns (s : Mutex) (t : TaskId) : Prop := s.phase t = .owning

/-- The task has been given the mutex and has not been resumed. -/
def Handed (s : Mutex) (t : TaskId) : Prop :=
  (s.phase t = .queuing ∨ s.phase t = .blocked) ∧ t ∉ s.waiting

instance (s : Mutex) (t : TaskId) : Decidable (s.Handed t) := inferInstanceAs (Decidable (_ ∧ _))

/-- The task is in the list, or is about to be handed on. -/
def ToGive (s : Mutex) (t : TaskId) : Prop := t ∈ s.waiting ∨ (s.Handed t ∧ s.wake t = 0)

instance (s : Mutex) (t : TaskId) : Decidable (s.ToGive t) := inferInstanceAs (Decidable (_ ∨ _))

end Mutex

/-- What is claimed of every state. -/
structure MutexFollows (s : Mutex) : Prop where
  one : ∀ t u, s.Owns t ∨ s.Handed t → s.Owns u ∨ s.Handed u → t = u
  taken : s.taken = true ↔ ∃ t, s.Owns t ∨ s.Handed t
  list : IsRing s.links .list (s.waiting.map .task)
  waiting : s.waiting ≠ [] → s.taken = true
  fifo : s.granted <+: s.queued
  once : ∀ t, s.given t + (if s.ToGive t then 1 else 0) = s.queued.count t

/-- What is claimed of an unlock and of a trylock. -/
def HandsOff (s : Mutex) : MutexMove → Prop
  | .unlock t yields => s.Owns t → ∀ u rest, s.waiting = u :: rest →
      (s.unlock t yields).taken = true ∧ (s.unlock t yields).Handed u
        ∧ (s.unlock t yields).waiting = rest
  | .trylock t => (s.trylock t).1 = false ↔ s.taken = true
  | _ => True

/-! ## The invariant -/

/-- What the phase of a task says, when `l` is the list, `h` the task that
owns the mutex or has been given it, and `g` the task that hands it on. -/
def MutexPhase.Ok (l : List TaskId) (h g : Option TaskId) (t : TaskId) (wake : Nat) :
    MutexPhase → Prop
  | .outside => t ∉ l ∧ h ≠ some t ∧ g ≠ some t ∧ wake = 0
  | .owning => t ∉ l ∧ h = some t ∧ g = none ∧ wake = 0
  | .queuing | .blocked =>
      g ≠ some t ∧ ((t ∈ l ∧ h ≠ some t ∧ wake = 0) ∨
        (t ∉ l ∧ h = some t ∧ wake = if g = none then 1 else 0))
  | .giving u _ => t ∉ l ∧ h = some u ∧ u ≠ t ∧ g = some t ∧ wake = 0
  | .switching u => t ∉ l ∧ h = some u ∧ u ≠ t ∧ g = some t ∧ wake = 1
  | .yielded => t ∉ l ∧ h ≠ some t ∧ g ≠ some t ∧ wake = 1

namespace Mutex

structure Inv (s : Mutex) (l : List TaskId) (h g : Option TaskId) : Prop where
  taken : s.taken = h.isSome
  empty : h = none → l = [] ∧ g = none
  ring : IsRing s.links .list (l.map .task)
  history : s.queued = s.granted ++ l
  phase : ∀ t, (s.phase t).Ok l h g t (s.wake t)
  holder : ∀ t, h = some t → s.phase t = .owning ∨ s.phase t = .queuing ∨ s.phase t = .blocked
  given : ∀ t, s.given t + (if t ∈ l ∨ (h = some t ∧ g ≠ none) then 1 else 0) = s.queued.count t

variable {s s' : Mutex} {l : List TaskId} {h g : Option TaskId} {t u : TaskId}

theorem inv_init : init.Inv [] none none := by
  refine ⟨rfl, fun _ => ⟨rfl, rfl⟩, isRing_unlinked _, rfl, fun t => ?_, fun t ht => ?_, fun t => ?_⟩
  · simp [init, MutexPhase.Ok]
  · cases ht
  · simp [init]

theorem Inv.waiting_eq (hinv : s.Inv l h g) : s.waiting = l := by
  rw [waiting, hinv.history, List.drop_left]

/-- A phase other than those of the waiters keeps a task off the list. -/
theorem Inv.notMem (hinv : s.Inv l h g) (hq : s.phase t ≠ .queuing) (hb : s.phase t ≠ .blocked) :
    t ∉ l := by
  have hok := hinv.phase t
  cases hp : s.phase t <;> simp_all [MutexPhase.Ok]

theorem Inv.notMem_of_wake (hinv : s.Inv l h g) (hw : 0 < s.wake t) : t ∉ l := by
  have hok := hinv.phase t
  intro hin
  cases hp : s.phase t <;> rw [hp] at hok <;> simp only [MutexPhase.Ok] at hok
  case queuing | blocked =>
    rcases hok.2 with hl | hl
    · omega
    · exact hl.1 hin
  all_goals exact hok.1 hin

/-- A task takes a free mutex. -/
theorem Inv.take (hinv : s.Inv l h g) (hp : s.phase t = .outside) (hfree : s.taken = false) :
    (s.take t).Inv [] (some t) none := by
  have hnone : h = none := by
    have := hinv.taken
    rw [hfree] at this
    cases h with
    | none => rfl
    | some v => cases this
  subst hnone
  obtain ⟨rfl, rfl⟩ := hinv.empty rfl
  refine ⟨rfl, (fun hn => by cases hn), hinv.ring, hinv.history, fun v => ?_, fun v hv => ?_,
    fun v => ?_⟩
  · have hok := hinv.phase v
    by_cases hv : v = t
    · subst hv
      rw [hp] at hok
      simp only [Mutex.take, setPhase, Function.update_self]
      exact ⟨List.not_mem_nil, rfl, rfl, hok.2.2.2⟩
    · simp only [Mutex.take, setPhase, Function.update_of_ne hv]
      -- nobody else has to do with the mutex
      cases hpv : s.phase v <;> rw [hpv] at hok <;>
        simp_all [MutexPhase.Ok, Ne.symm hv]
  · obtain rfl := Option.some.inj hv
    left
    simp [Mutex.take, setPhase]
  · have := hinv.given v
    simpa [Mutex.take, setPhase] using this

/-- A task queues for a mutex that is taken. -/
theorem Inv.queue (hinv : s.Inv l h g) (hp : s.phase t = .outside) (htaken : s.taken = true) :
    Inv { s.setPhase t .queuing with
      links := s.links.addTail .list (.task t), queued := s.queued ++ [t] } (l ++ [t]) h g := by
  have hok := hinv.phase t
  rw [hp] at hok
  obtain ⟨hnotin, hne, hgne, hwake⟩ := hok
  refine ⟨hinv.taken, fun hn => ?_, ?_, ?_, fun v => ?_, fun v hv => ?_, fun v => ?_⟩
  · have := hinv.taken
    rw [hn, htaken] at this
    cases this
  · rw [List.map_append]
    refine hinv.ring.addTail ?_
    simp [hnotin]
  · simp only [setPhase, hinv.history, List.append_assoc]
  · have hokv := hinv.phase v
    by_cases hv : v = t
    · subst hv
      simp only [setPhase, Function.update_self]
      exact ⟨hgne, Or.inl ⟨by simp, hne, hwake⟩⟩
    · simp only [setPhase, Function.update_of_ne hv]
      cases hpv : s.phase v <;> rw [hpv] at hokv <;>
        simp only [MutexPhase.Ok, List.mem_append, List.mem_singleton, hv, or_false] at hokv ⊢ <;>
        exact hokv
  · have hvt : v ≠ t := by
      rintro rfl
      exact hne hv
    simp only [setPhase, Function.update_of_ne hvt]
    exact hinv.holder v hv
  · have hgiven := hinv.given v
    simp only [setPhase, List.mem_append, List.mem_singleton, List.count_append]
    by_cases hv : v = t
    · subst hv
      simp only [hnotin, hne, false_and, or_self, if_false] at hgiven
      simp only [or_true, true_or, if_true, List.count_singleton_self]
      omega
    · simp only [hv, or_false, List.count_singleton, beq_iff_eq, Ne.symm hv, if_false]
      exact hgiven

theorem Inv.lock (hinv : s.Inv l h g) (hp : s.phase t = .outside) :
    ∃ l' h', (s.lock t).Inv l' h' g := by
  unfold Mutex.lock
  cases htaken : s.taken with
  | true => exact ⟨l ++ [t], h, hinv.queue hp htaken⟩
  | false =>
      have hg : g = none := by
        have := hinv.taken
        cases h with
        | none => exact (hinv.empty rfl).2
        | some v =>
            rw [htaken] at this
            cases this
      subst hg
      exact ⟨[], some t, hinv.take hp htaken⟩

theorem Inv.block (hinv : s.Inv l h g) (hp : s.phase t = .queuing) :
    (s.setPhase t .blocked).Inv l h g := by
  refine ⟨hinv.taken, hinv.empty, hinv.ring, hinv.history, fun v => ?_, fun v hv => ?_, hinv.given⟩
  · have hok := hinv.phase v
    by_cases hv : v = t
    · subst hv
      rw [hp] at hok
      simp only [setPhase, Function.update_self]
      exact hok
    · simpa only [setPhase, Function.update_of_ne hv] using hok
  · by_cases hvt : v = t
    · subst hvt
      simp [setPhase]
    · simpa only [setPhase, Function.update_of_ne hvt] using hinv.holder v hv

/-- An unlock without waiters. -/
theorem Inv.unlock_free (hinv : s.Inv [] h g) (hp : s.phase t = .owning) (yields : Bool) :
    (s.unlock t yields).Inv [] none none := by
  have hok := hinv.phase t
  rw [hp] at hok
  obtain ⟨-, rfl, rfl, hwake⟩ := hok
  rw [unlock, popFront_nil hinv.ring]
  refine ⟨rfl, fun _ => ⟨rfl, rfl⟩, hinv.ring, hinv.history, fun v => ?_, fun v hv => ?_, fun v => ?_⟩
  · have hokv := hinv.phase v
    by_cases hv : v = t
    · subst hv
      simp [setPhase, MutexPhase.Ok, hwake]
    · simp only [setPhase, Function.update_of_ne hv]
      cases hpv : s.phase v <;> rw [hpv] at hokv <;>
        simp_all [MutexPhase.Ok, Ne.symm hv]
  · cases hv
  · have := hinv.given v
    simpa [setPhase] using this

/-- An unlock with waiters: the first of them gets the mutex. -/
theorem Inv.unlock_hand (hinv : s.Inv (u :: l) h g) (hp : s.phase t = .owning) (yields : Bool) :
    (s.unlock t yields).Inv l (some u) (some t) := by
  have hok := hinv.phase t
  rw [hp] at hok
  obtain ⟨hnotin, rfl, rfl, hwake⟩ := hok
  have hnd : (u :: l).Nodup := by
    have := (List.nodup_cons.mp hinv.ring.nodup).2
    exact List.Nodup.of_map _ this
  have hul : u ∉ l := (List.nodup_cons.mp hnd).1
  have hut : u ≠ t := fun heq => hnotin (heq ▸ List.mem_cons_self)
  have hpop : s.links.popFront .list = (some (.task u), s.links.remove (.task u)) :=
    popFront_cons hinv.ring
  have hfirst : IsRing s.links .list ([] ++ MutexHook.task u :: l.map .task) := hinv.ring
  have hring := hfirst.remove.1
  rw [unlock, hpop]
  refine ⟨hinv.taken, (fun hn => by cases hn), hring, ?_, fun v => ?_, fun v hv => ?_, fun v => ?_⟩
  · simp [setPhase, hinv.history]
  · have hokv := hinv.phase v
    by_cases hv : v = t
    · subst hv
      simp only [setPhase, Function.update_self]
      exact ⟨fun hin => hnotin (List.mem_cons_of_mem u hin), rfl, hut, rfl, hwake⟩
    · simp only [setPhase, Function.update_of_ne hv]
      by_cases hvu : v = u
      · subst hvu
        cases hpv : s.phase v <;> rw [hpv] at hokv <;>
          simp_all [MutexPhase.Ok, Ne.symm hv]
      · cases hpv : s.phase v <;> rw [hpv] at hokv <;>
          simp_all [MutexPhase.Ok, Ne.symm hv, Ne.symm hvu]
  · obtain rfl := Option.some.inj hv
    have hoku := hinv.phase u
    simp only [setPhase, Function.update_of_ne hut]
    cases hpu : s.phase u <;> rw [hpu] at hoku <;> simp_all [MutexPhase.Ok]
  · have hgiven := hinv.given v
    simp only [setPhase]
    by_cases hvu : v = u
    · subst hvu
      simp_all
    · simp_all [Ne.symm hvu]

/-- The waiter that has been given the mutex is handed on. -/
theorem Inv.handOn {p : MutexPhase} (hinv : s.Inv l h g) (hh : h = some u) (hg : g = some t)
    (hut : u ≠ t) (hp : p.Ok l h none t (s.wake t)) :
    (s.handOn t u p).Inv l h none := by
  subst hh hg
  have hnotin : u ∉ l ∧ s.wake u = 0 := by
    have hoku := hinv.phase u
    rcases hinv.holder u rfl with hpu | hpu | hpu <;> rw [hpu] at hoku <;>
      simp_all [MutexPhase.Ok]
  refine ⟨hinv.taken, (fun hn => by cases hn), hinv.ring, hinv.history, fun v => ?_, fun v hv => ?_,
    fun v => ?_⟩
  · have hokv := hinv.phase v
    simp only [Mutex.handOn, wakeUp, setPhase]
    by_cases hv : v = t
    · subst hv
      rw [Function.update_self, Function.update_of_ne hut.symm]
      exact hp
    · rw [Function.update_of_ne hv]
      by_cases hvu : v = u
      · subst hvu
        rw [Function.update_self]
        rcases hinv.holder v rfl with hpv | hpv | hpv <;> rw [hpv] at hokv ⊢ <;>
          simp_all [MutexPhase.Ok]
      · rw [Function.update_of_ne hvu]
        cases hpv : s.phase v <;> rw [hpv] at hokv <;>
          simp_all [MutexPhase.Ok, Ne.symm hvu, Ne.symm hv]
  · obtain rfl := Option.some.inj hv
    simp only [Mutex.handOn, wakeUp, setPhase]
    rw [Function.update_of_ne hut]
    exact hinv.holder u rfl
  · have hgiven := hinv.given v
    simp only [Mutex.handOn, wakeUp, setPhase]
    by_cases hvu : v = u
    · subst hvu
      rw [Function.update_self]
      simp_all
    · rw [Function.update_of_ne hvu]
      simp_all [Ne.symm hvu]

theorem Inv.switch (hinv : s.Inv l h g) (hp : s.phase t = .giving u true) :
    ((s.setPhase t (.switching u)).wakeUp t).Inv l h g := by
  have hok := hinv.phase t
  rw [hp] at hok
  obtain ⟨hnotin, hh, hut, hg, hwake⟩ := hok
  refine ⟨hinv.taken, hinv.empty, hinv.ring, hinv.history, fun v => ?_, fun v hv => ?_, hinv.given⟩
  · simp only [wakeUp, setPhase]
    by_cases hv : v = t
    · subst hv
      rw [Function.update_self, Function.update_self, hwake]
      exact ⟨hnotin, hh, hut, hg, rfl⟩
    · rw [Function.update_of_ne hv, Function.update_of_ne hv]
      exact hinv.phase v
  · have hvt : v ≠ t := by
      rintro rfl
      rw [hh] at hv
      exact hut (Option.some.inj hv)
    simp only [wakeUp, setPhase]
    rw [Function.update_of_ne hvt]
    exact hinv.holder v hv

theorem Inv.give (hinv : s.Inv l h g) (hstep : s.step (.give t) = some s') :
    ∃ g', s'.Inv l h g' := by
  have hok := hinv.phase t
  simp only [step] at hstep
  split at hstep
  · rename_i u hp
    obtain rfl := Option.some.inj hstep
    rw [hp] at hok
    obtain ⟨hnotin, hh, hut, hg, hwake⟩ := hok
    refine ⟨none, hinv.handOn hh hg hut ⟨hnotin, ?_, by simp, hwake⟩⟩
    rw [hh]
    exact fun heq => hut (Option.some.inj heq)
  · rename_i u hp
    obtain rfl := Option.some.inj hstep
    exact ⟨g, hinv.switch hp⟩
  · rename_i u hp
    obtain rfl := Option.some.inj hstep
    rw [hp] at hok
    obtain ⟨hnotin, hh, hut, hg, hwake⟩ := hok
    refine ⟨none, hinv.handOn hh hg hut ⟨hnotin, ?_, by simp, hwake⟩⟩
    rw [hh]
    exact fun heq => hut (Option.some.inj heq)
  · cases hstep

/-- A task that is in no list is resumed. -/
theorem Inv.resumed {p : MutexPhase} (hinv : s.Inv l h g) (hnotin : t ∉ l)
    (hp : p.Ok l h g t (s.wake t - 1))
    (hholder : h = some t → p = .owning ∨ p = .queuing ∨ p = .blocked) :
    (s.resume t p).Inv l h g := by
  refine ⟨hinv.taken, hinv.empty, ?_, hinv.history, fun v => ?_, fun v hv => ?_, hinv.given⟩
  · refine hinv.ring.frame fun x hx => same_init ?_
    rintro rfl
    simp [hnotin] at hx
  · simp only [Mutex.resume, setPhase]
    by_cases hv : v = t
    · subst hv
      rw [Function.update_self, Function.update_self]
      exact hp
    · rw [Function.update_of_ne hv, Function.update_of_ne hv]
      exact hinv.phase v
  · simp only [Mutex.resume, setPhase]
    by_cases hvt : v = t
    · subst hvt
      rw [Function.update_self]
      exact hholder hv
    · rw [Function.update_of_ne hvt]
      exact hinv.holder v hv

theorem Inv.resume (hinv : s.Inv l h g) (hstep : s.step (.resume t) = some s') : s'.Inv l h g := by
  obtain ⟨hw, hstep⟩ := Option.ite_none_right_eq_some.mp hstep
  have hnotin := hinv.notMem_of_wake hw
  have hok := hinv.phase t
  split at hstep
  · rename_i hp
    obtain rfl := Option.some.inj hstep
    rw [hp] at hok
    obtain ⟨hgne, ⟨hin, -, -⟩ | ⟨-, hh, hwake⟩⟩ := hok
    · exact absurd hin hnotin
    · have hg : g = none := by
        by_contra hne
        rw [if_neg hne] at hwake
        omega
      rw [if_pos hg] at hwake
      exact hinv.resumed hnotin ⟨hnotin, hh, hg, by omega⟩ fun _ => Or.inl rfl
  · rename_i hp
    obtain rfl := Option.some.inj hstep
    rw [hp] at hok
    obtain ⟨-, hne, hgne, hwake⟩ := hok
    exact hinv.resumed hnotin ⟨hnotin, hne, hgne, by omega⟩ fun hh => absurd hh hne
  · cases hstep

theorem Inv.relink {next prev : MutexHook} (hinv : s.Inv l h g) (hw : 0 < s.wake t) :
    Inv { s with links := ⟨Function.update s.links.next (.task t) next,
                           Function.update s.links.prev (.task t) prev⟩ } l h g := by
  have hnotin := hinv.notMem_of_wake hw
  refine ⟨hinv.taken, hinv.empty, hinv.ring.frame fun x hx => ?_, hinv.history, hinv.phase,
    hinv.holder, hinv.given⟩
  have hne : x ≠ .task t := by
    rintro rfl
    simp [hnotin] at hx
  exact ⟨Function.update_of_ne hne .., Function.update_of_ne hne ..⟩

theorem Inv.unlock (hinv : s.Inv l h g) (hp : s.phase t = .owning) (yields : Bool) :
    ∃ l' h' g', (s.unlock t yields).Inv l' h' g' := by
  cases l with
  | nil => exact ⟨[], none, none, hinv.unlock_free hp yields⟩
  | cons u l => exact ⟨l, some u, some t, hinv.unlock_hand hp yields⟩

theorem inv_step {m : MutexMove} (hstep : s.step m = some s')
    (hinv : ∃ l h g, s.Inv l h g) : ∃ l h g, s'.Inv l h g := by
  obtain ⟨l, h, g, hinv⟩ := hinv
  cases m with
  | lock t =>
      obtain ⟨hp, heq⟩ := Option.ite_none_right_eq_some.mp hstep
      obtain rfl := Option.some.inj heq
      obtain ⟨l', h', hinv'⟩ := hinv.lock hp
      exact ⟨l', h', g, hinv'⟩
  | trylock t =>
      obtain ⟨hp, heq⟩ := Option.ite_none_right_eq_some.mp hstep
      obtain rfl := Option.some.inj heq
      unfold trylock
      cases htaken : s.taken with
      | true => exact ⟨l, h, g, hinv⟩
      | false => exact ⟨[], some t, none, hinv.take hp htaken⟩
  | block t =>
      obtain ⟨hp, heq⟩ := Option.ite_none_right_eq_some.mp hstep
      obtain rfl := Option.some.inj heq
      exact ⟨l, h, g, hinv.block hp⟩
  | unlock t yields =>
      obtain ⟨hp, heq⟩ := Option.ite_none_right_eq_some.mp hstep
      obtain rfl := Option.some.inj heq
      exact hinv.unlock hp yields
  | give t =>
      obtain ⟨g', hinv'⟩ := hinv.give hstep
      exact ⟨l, h, g', hinv'⟩
  | resume t => exact ⟨l, h, g, hinv.resume hstep⟩
  | relink t next prev =>
      obtain ⟨hw, heq⟩ := Option.ite_none_right_eq_some.mp hstep
      obtain rfl := Option.some.inj heq
      exact ⟨l, h, g, hinv.relink hw⟩

/-! ## What follows from the invariant -/

/-- The task of the invariant is the one that owns the mutex or has been
given it. -/
theorem Inv.holds_iff (hinv : s.Inv l h g) : s.Owns t ∨ s.Handed t ↔ h = some t := by
  have hok := hinv.phase t
  unfold Owns Handed
  rw [hinv.waiting_eq]
  constructor
  · rintro (hp | ⟨hp | hp, hnotin⟩) <;> rw [hp] at hok
    · exact hok.2.1
    · exact (hok.2.resolve_left fun hl => hnotin hl.1).2.1
    · exact (hok.2.resolve_left fun hl => hnotin hl.1).2.1
  · intro hh
    rcases hinv.holder t hh with hp | hp | hp <;> rw [hp] at hok
    · exact Or.inl hp
    · exact Or.inr ⟨Or.inl hp, (hok.2.resolve_left fun hl => hl.2.1 hh).1⟩
    · exact Or.inr ⟨Or.inr hp, (hok.2.resolve_left fun hl => hl.2.1 hh).1⟩

/-- A task that has been given the mutex is yet to be handed on as long as
somebody is about to do it. -/
theorem Inv.handed_wake (hinv : s.Inv l h g) :
    (s.Handed t ∧ s.wake t = 0) ↔ (h = some t ∧ g ≠ none) := by
  have hok := hinv.phase t
  constructor
  · rintro ⟨hhanded, hwake⟩
    have hh := hinv.holds_iff.mp (Or.inr hhanded)
    refine ⟨hh, fun hg => ?_⟩
    rcases hhanded.1 with hp | hp <;> rw [hp] at hok <;>
      simp_all [MutexPhase.Ok]
  · rintro ⟨hh, hg⟩
    rcases hinv.holds_iff.mpr hh with hp | hhanded
    · rw [hp] at hok
      exact absurd hok.2.2.1 hg
    · refine ⟨hhanded, ?_⟩
      rcases hhanded.1 with hp | hp <;> rw [hp] at hok <;>
        simp_all [MutexPhase.Ok]

theorem Inv.follows (hinv : s.Inv l h g) : MutexFollows s := by
  refine ⟨fun t u ht hu => ?_, ?_, ?_, fun hne => ?_, ?_, fun t => ?_⟩
  · exact Option.some.inj ((hinv.holds_iff.mp ht).symm.trans (hinv.holds_iff.mp hu))
  · rw [hinv.taken]
    simp only [hinv.holds_iff]
    exact Option.isSome_iff_exists
  · rw [hinv.waiting_eq]
    exact hinv.ring
  · rw [hinv.waiting_eq] at hne
    rw [hinv.taken]
    cases hh : h with
    | none => exact absurd (hinv.empty hh).1 hne
    | some t => rfl
  · exact ⟨l, hinv.history.symm⟩
  · have hgiven := hinv.given t
    have htoGive : s.ToGive t ↔ t ∈ l ∨ (h = some t ∧ g ≠ none) := by
      rw [ToGive, hinv.waiting_eq, hinv.handed_wake]
    rw [if_congr htoGive rfl rfl]
    exact hgiven

theorem Inv.handsOff (hinv : s.Inv l h g) (m : MutexMove) : HandsOff s m := by
  cases m with
  | unlock t yields =>
      intro hp u rest hwaiting
      rw [hinv.waiting_eq] at hwaiting
      subst hwaiting
      have hinv' := hinv.unlock_hand hp yields
      refine ⟨hinv'.taken, ?_, hinv'.waiting_eq⟩
      refine (hinv'.holds_iff.mpr rfl).resolve_left fun hown => ?_
      have := hinv'.phase u
      rw [hown] at this
      cases this.2.2.1
  | trylock t =>
      unfold HandsOff trylock
      cases s.taken <;> simp
  | _ => trivial

end Mutex

/-- The mutex has one owner at a time and is handed to the waiters in the
order in which they queued, each of them once. -/
theorem mutex_follows (moves : List MutexMove) (s : Mutex)
    (hrun : run Mutex.step .init moves = some s) :
    MutexFollows s ∧ Along Mutex.step HandsOff .init moves := by
  have hinit : ∃ l h g, Mutex.init.Inv l h g := ⟨[], none, none, Mutex.inv_init⟩
  have hkeep : ∀ s m s', True → Mutex.step s m = some s' → (∃ l h g, s.Inv l h g) →
      ∃ l h g, s'.Inv l h g := fun _ _ _ _ hstep hinv => Mutex.inv_step hstep hinv
  have htrue : Along Mutex.step (fun _ _ => True) .init moves :=
    along_of_forall_mem fun _ _ _ => trivial
  obtain ⟨l, h, g, hinv⟩ := invariant_along hkeep htrue hrun hinit
  refine ⟨hinv.follows, along_of_invariant hkeep (fun s m _ hinv => ?_) htrue hinit⟩
  obtain ⟨l, h, g, hinv⟩ := hinv
  exact hinv.handsOff m

/-- Two waiters; the first is given the mutex before it has blocked, the
second gets the CPU of the first. -/
theorem mutex_follows_two :
    ∃ s, run Mutex.step .init [.lock 1, .lock 2, .lock 3, .block 3, .unlock 1 false, .give 1, .block 2,
        .resume 2, .unlock 2 true, .give 2, .give 2, .resume 3, .resume 2] = some s
      ∧ MutexFollows s ∧ s.phase 3 = .owning ∧ s.phase 2 = .outside := by
  have heval : (run Mutex.step .init [.lock 1, .lock 2, .lock 3, .block 3, .unlock 1 false, .give 1,
      .block 2, .resume 2, .unlock 2 true, .give 2, .give 2, .resume 3, .resume 2]).map
        (fun s => (s.phase 3, s.phase 2)) = some (.owning, .outside) := by
    decide +kernel
  obtain ⟨s, hrun, hval⟩ := Option.map_eq_some_iff.mp heval
  obtain ⟨h3, h2⟩ := Prod.mk.injEq .. |>.mp hval
  exact ⟨s, hrun, (mutex_follows _ s hrun).1, h3, h2⟩

end Nosv
