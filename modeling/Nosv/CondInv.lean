import Nosv.CondWait

/-!
# The invariant of condition variables

Every task is at one `Spot`: in one of the lists, taken off a list by a
caller that has yet to wake it, or neither (`Spot.off`). An untimed waiter
that is not off is one that nobody has woken, and its `blocking_count`
says so; once it is off it has been given to the scheduler, or finds the
counter below zero. A timed waiter that is off has been woken, which its
`deadline_state` says until somebody takes notice, or has woken up by
itself (`CondPhase.Ok`).
-/

namespace Nosv

open Run Ring

/-! ## One task -/

namespace Sleeper

structure Ok (k : Sleeper) : Prop where
  low : -2147483648 ≤ k.count
  idle : k.place = .idle → k.count = 1
  awake : k.place ≠ .idle → k.count ≤ 0
  deadline : k.place = .idle ∨ k.place = .running ∨ k.place = .ready → k.task.deadline = 0

variable {k k' : Sleeper}

theorem ok_init : Sleeper.init.Ok := by
  refine ⟨by decide, fun _ => rfl, fun h => absurd rfl h, fun _ => rfl⟩

/-- A submission of a blocked task hands it to the scheduler. -/
theorem submit_idle (hok : k.Ok) (hcount : k.count = 1) :
    ∃ k', k.submit = some k' ∧ k'.place = .queued ∧ k'.count = 0 ∧ k'.state = k.state
      ∧ k'.task.deadline = 0 := by
  have hidle : k.place = .idle := by
    by_contra hne
    have := hok.awake hne
    omega
  have hbc : k.task.blockingCount = 1 := hcount
  refine ⟨⟨{ k.task with blockingCount := 0 }, .queued⟩, ?_, rfl, rfl, rfl, hok.deadline (Or.inl hidle)⟩
  simp [Sleeper.submit, Task.submit, hbc, hidle]

/-- A submission of any other task is left in the counter. -/
theorem submit_awake (hcount : k.count ≤ 0) (hfits : CountFits k.count) :
    ∃ k', k.submit = some k' ∧ k'.place = k.place ∧ k'.count = k.count - 1 ∧ k'.state = k.state
      ∧ k'.task.deadline = k.task.deadline := by
  have hcount' : k.task.blockingCount ≤ 0 := hcount
  have hdown : countDown k.task.blockingCount = k.task.blockingCount - 1 :=
    countDown_eq hfits (by omega)
  refine ⟨⟨{ k.task with blockingCount := k.task.blockingCount - 1 }, k.place⟩, ?_, rfl, rfl, rfl, rfl⟩
  have hne : (k.task.blockingCount - 1 == 0) = false := beq_eq_false_iff_ne.mpr (by omega)
  simp only [Sleeper.submit, Task.submit, hdown, hne]

theorem Ok.submit (hok : k.Ok) (hfits : CountFits k.count) (hsub : k.submit = some k') :
    k'.Ok := by
  by_cases hcount : k.count = 1
  · obtain ⟨k₁, hk₁, hplace, hcount, -, hdl⟩ := submit_idle hok hcount
    obtain rfl := Option.some.inj (hk₁.symm.trans hsub)
    refine ⟨by omega, fun h => ?_, fun _ => by omega, fun _ => hdl⟩
    rw [hplace] at h
    cases h
  · have hnot : k.place ≠ .idle := fun h => hcount (hok.idle h)
    have hle := hok.awake hnot
    obtain ⟨k₁, hk₁, hplace, hcount', -, hdl⟩ := submit_awake hle hfits
    have hlow : -2147483648 < k.count := hfits
    obtain rfl := Option.some.inj (hk₁.symm.trans hsub)
    refine ⟨by omega, fun h => ?_, fun _ => by omega, fun h => ?_⟩
    · rw [hplace] at h
      exact absurd h hnot
    · rw [hplace] at h
      rw [hdl]
      exact hok.deadline h

/-- What `nosv_pause` does: it blocks unless a submission is left over. -/
theorem pause_spec (hok : k.Ok) (hpause : k.pause = some k') :
    k.place = .running ∧ k'.count = k.count + 1 ∧ k'.state = k.state ∧ k'.task.deadline = 0
      ∧ k'.place = if k.count = 0 then .idle else .running := by
  obtain ⟨hrun, heq⟩ := Option.ite_none_right_eq_some.mp hpause
  obtain rfl := Option.some.inj heq
  have hle := hok.awake (by simp [hrun])
  have hup : countUp k.task.blockingCount = k.count + 1 := (CountTaken.mk hok.low hle).up
  refine ⟨hrun, ?_, rfl, hok.deadline (Or.inr (Or.inl hrun)), ?_⟩
  · exact hup
  · simp only [Task.pause, hup, decide_eq_true_eq]
    by_cases hzero : k.count = 0
    · simp [hzero]
    · rw [if_neg hzero, if_neg (by omega)]

theorem Ok.pause (hok : k.Ok) (hpause : k.pause = some k') : k'.Ok := by
  obtain ⟨hrun, hcount, -, hdl, hplace⟩ := pause_spec hok hpause
  have hle := hok.awake (by simp [hrun])
  have hlow := hok.low
  refine ⟨by omega, fun h => ?_, fun h => ?_, fun _ => hdl⟩
  · rw [hplace] at h
    split at h
    · omega
    · cases h
  · rw [hplace] at h
    split at h
    · exact absurd rfl h
    · omega

/-- What `nosv_waitfor` does up to its compare-exchange. -/
theorem waitfor_spec {startTime timeout : Nat} (hwait : k.waitfor startTime timeout = some k') :
    k.place = .running ∧ k'.count = k.count
      ∧ (k.state = .none → k'.place = .submitting ∧ k'.state = .pending
        ∧ k'.task.deadline = u64 (startTime + timeout))
      ∧ (k.state ≠ .none → k'.place = .lapsing ∧ k'.state = k.state) := by
  obtain ⟨hrun, heq⟩ := Option.ite_none_right_eq_some.mp hwait
  obtain rfl := Option.some.inj heq
  refine ⟨hrun, ?_, fun hnone => ?_, fun hne => ?_⟩
  · simp only [count, Task.casDeadline]
    split <;> rfl
  · simp only [state] at hnone
    simp [Task.casDeadline, state, hnone]
  · simp only [state] at hne
    simp [Task.casDeadline, state, hne]

theorem Ok.waitfor {startTime timeout : Nat} (hok : k.Ok)
    (hwait : k.waitfor startTime timeout = some k') : k'.Ok := by
  obtain ⟨hrun, hcount, hnone, hsome⟩ := waitfor_spec hwait
  have hle := hok.awake (by simp [hrun])
  have hlow := hok.low
  have hplace : k'.place = .submitting ∨ k'.place = .lapsing := by
    by_cases h : k.state = .none
    · exact Or.inl (hnone h).1
    · exact Or.inr (hsome h).1
  refine ⟨by omega, fun h => ?_, fun _ => by omega, fun h => ?_⟩
  · rw [h] at hplace
    simp at hplace
  · rcases hplace with hp | hp <;> rw [hp] at h <;> simp at h

theorem Ok.exchange (hok : k.Ok) : k.exchange.Ok := ⟨hok.low, hok.idle, hok.awake, hok.deadline⟩

/-- The steps of the scheduler keep the counter, and leave alone a task that
runs or is blocked. -/
theorem step_spec {m : SleepMove} (hstep : k.step m = some k') :
    k'.count = k.count ∧ k.place ≠ .idle ∧ k.place ≠ .running ∧ k'.place ≠ .idle
      ∧ (k'.place = .running ∨ k'.place = .ready → (k.place = .running ∨ k.place = .ready
        → k.task.deadline = 0) → k'.task.deadline = 0) := by
  cases m <;> simp only [Sleeper.step] at hstep
  case insert =>
    obtain ⟨hp, hstep⟩ := Option.ite_none_right_eq_some.mp hstep
    split at hstep
    · rename_i hzero
      obtain rfl := Option.some.inj hstep
      exact ⟨rfl, by simp [hp], by simp [hp], by simp, fun _ _ => hzero⟩
    · split at hstep <;> obtain rfl := Option.some.inj hstep <;>
        exact ⟨rfl, by simp [hp], by simp [hp], by simp, by simp⟩
  case expire now | purge =>
    obtain ⟨⟨hp, -⟩, heq⟩ := Option.ite_none_right_eq_some.mp hstep
    obtain rfl := Option.some.inj heq
    exact ⟨rfl, by simp [hp], by simp [hp], by simp, by simp⟩
  all_goals
    obtain ⟨hp, heq⟩ := Option.ite_none_right_eq_some.mp hstep
    obtain rfl := Option.some.inj heq
    refine ⟨rfl, by simp [hp], by simp [hp], by simp, ?_⟩
    simp [hp, deadlineTaskWakeUp]

/-- The way of a plain task through the scheduler. -/
theorem step_queued {m : SleepMove} (hstep : k.step m = some k') (hdl : k.task.deadline = 0)
    (hplace : k.place = .queued ∨ k.place = .ready ∨ k.place = .running) :
    k'.task.deadline = 0 ∧ (k'.place = .queued ∨ k'.place = .ready ∨ k'.place = .running) := by
  cases m <;> simp only [Sleeper.step] at hstep
  case insert =>
    obtain ⟨-, hstep⟩ := Option.ite_none_right_eq_some.mp hstep
    rw [if_pos hdl] at hstep
    obtain rfl := Option.some.inj hstep
    exact ⟨hdl, by simp⟩
  case get =>
    obtain ⟨-, heq⟩ := Option.ite_none_right_eq_some.mp hstep
    obtain rfl := Option.some.inj heq
    exact ⟨hdl, by simp⟩
  case expire now | purge =>
    obtain ⟨⟨hp, -⟩, -⟩ := Option.ite_none_right_eq_some.mp hstep
    rw [hp] at hplace
    simp at hplace
  all_goals
    obtain ⟨hp, -⟩ := Option.ite_none_right_eq_some.mp hstep
    rw [hp] at hplace
    simp at hplace

/-- A woken task stays woken until it is ready. -/
theorem step_woken {m : SleepMove} (hstep : k.step m = some k')
    (hwoken : k.state = .ready ∨ k.place = .ready ∨ k.place = .running) :
    k'.state = .ready ∨ k'.place = .ready ∨ k'.place = .running := by
  cases m <;> simp only [Sleeper.step] at hstep
  case insert =>
    obtain ⟨hp, hstep⟩ := Option.ite_none_right_eq_some.mp hstep
    have hready : k.state = .ready := by
      rw [hp] at hwoken
      simpa using hwoken
    split at hstep
    · obtain rfl := Option.some.inj hstep
      exact Or.inr (Or.inl rfl)
    · rw [if_neg (by simp [hready])] at hstep
      obtain rfl := Option.some.inj hstep
      exact Or.inl hready
  case expire now | purge =>
    obtain ⟨⟨hp, -⟩, heq⟩ := Option.ite_none_right_eq_some.mp hstep
    obtain rfl := Option.some.inj heq
    rw [hp] at hwoken
    have hready : k.state = .ready := by simpa using hwoken
    exact Or.inl hready
  all_goals
    obtain ⟨hp, heq⟩ := Option.ite_none_right_eq_some.mp hstep
    obtain rfl := Option.some.inj heq
    rw [hp] at hwoken
    simp_all [state]

theorem Ok.step {m : SleepMove} (hok : k.Ok) (hstep : k.step m = some k') : k'.Ok := by
  obtain ⟨hcount, hidle, hrun, hidle', hdl⟩ := step_spec hstep
  have hle := hok.awake hidle
  have hlow := hok.low
  refine ⟨by omega, fun h => absurd h hidle', fun _ => by omega, fun h => ?_⟩
  refine hdl (h.resolve_left hidle') fun h => hok.deadline ?_
  exact Or.inr h

end Sleeper

/-! ## Where the tasks are -/

/-- Where a task is, as far as the condition variable knows. -/
inductive Spot where
  | off
  /-- in the list with head `h` -/
  | on (h : CondHook)
  /-- taken off a list by caller `c`, which is about to submit it -/
  | submitting (c : Nat)
  /-- taken off a list by caller `c`, which is about to exchange its state -/
  | waking (c : Nat)

namespace Spot

/-- The places of an untimed waiter that nobody has woken. -/
def Untimed (sp : Spot) : Prop :=
  sp = .on .list ∨ (∃ c, sp = .on (.nonTimed c)) ∨ ∃ c, sp = .submitting c

/-- The places of a timed waiter that nobody has woken. -/
def Timed (sp : Spot) : Prop := sp = .on .listTimed ∨ ∃ c, sp = .waking c

end Spot

/-- What the phase of a task says about its place and its descriptor. -/
def CondPhase.Ok (sp : Spot) (k : Sleeper) : CondPhase → Prop
  | .outside => sp = .off
  | .listed none | .unlocked none =>
      k.place = .running ∧ ((sp.Untimed ∧ k.count = 0) ∨ (sp = .off ∧ k.count < 0))
  | .listed (some _) | .unlocked (some _) =>
      k.place = .running ∧ (sp.Timed ∨ (sp = .off ∧ k.state = .ready))
  | .asleep none => (sp.Untimed ∧ k.count = 1) ∨
      (sp = .off ∧ k.task.deadline = 0 ∧
        (k.place = .queued ∨ k.place = .ready ∨ k.place = .running))
  | .asleep (some _) => k.place ≠ .idle ∧ (sp.Timed ∨
      (sp = .off ∧ (k.state = .ready ∨ k.place = .ready ∨ k.place = .running)))
  | .leaving => k.place = .running ∧ (sp.Timed ∨ sp = .off)
  | .relocking => k.place = .running ∧ sp = .off

namespace CondPhase.Ok

variable {p : CondPhase} {sp sp' : Spot} {k k' : Sleeper}

/-- An untimed waiter that nobody has woken is at some other such place. -/
theorem untimed (hok : p.Ok sp k) (hsp : sp.Untimed) (hsp' : sp'.Untimed) : p.Ok sp' k := by
  have hoff : sp ≠ .off := by rcases hsp with rfl | ⟨c, rfl⟩ | ⟨c, rfl⟩ <;> simp
  have htimed : ¬ sp.Timed := by
    rcases hsp with rfl | ⟨c, rfl⟩ | ⟨c, rfl⟩ <;> simp [Spot.Timed]
  match p with
  | .outside => exact absurd hok hoff
  | .listed none | .unlocked none =>
      exact ⟨hok.1, hok.2.imp (fun h => ⟨hsp', h.2⟩) fun h => absurd h.1 hoff⟩
  | .listed (some _) | .unlocked (some _) =>
      exact (hok.2.elim htimed fun h => hoff h.1).elim
  | .asleep none => exact hok.imp (fun h => ⟨hsp', h.2⟩) fun h => absurd h.1 hoff
  | .asleep (some _) => exact (hok.2.elim htimed fun h => hoff h.1).elim
  | .leaving => exact (hok.2.elim htimed hoff).elim
  | .relocking => exact absurd hok.2 hoff

/-- The same for a timed waiter. -/
theorem timed (hok : p.Ok sp k) (hsp : sp.Timed) (hsp' : sp'.Timed) : p.Ok sp' k := by
  have hoff : sp ≠ .off := by rcases hsp with rfl | ⟨c, rfl⟩ <;> simp
  have huntimed : ¬ sp.Untimed := by rcases hsp with rfl | ⟨c, rfl⟩ <;> simp [Spot.Untimed]
  match p with
  | .outside => exact absurd hok hoff
  | .listed none | .unlocked none =>
      exact (hok.2.elim (fun h => huntimed h.1) fun h => hoff h.1).elim
  | .listed (some _) | .unlocked (some _) =>
      exact ⟨hok.1, Or.inl hsp'⟩
  | .asleep none => exact (hok.elim (fun h => huntimed h.1) fun h => hoff h.1).elim
  | .asleep (some _) => exact ⟨hok.1, Or.inl hsp'⟩
  | .leaving => exact ⟨hok.1, Or.inl hsp'⟩
  | .relocking => exact absurd hok.2 hoff

/-- An untimed waiter is submitted by the caller that has taken it off its
list: it is with the scheduler, or finds the submission when it pauses. -/
theorem submitted (hok : p.Ok sp k) (hk : k.Ok) (hsp : sp.Untimed) :
    ∃ k', k.submit = some k' ∧ k'.Ok ∧ p.Ok .off k' := by
  have hoff : sp ≠ .off := by rcases hsp with rfl | ⟨c, rfl⟩ | ⟨c, rfl⟩ <;> simp
  have htimed : ¬ sp.Timed := by
    rcases hsp with rfl | ⟨c, rfl⟩ | ⟨c, rfl⟩ <;> simp [Spot.Timed]
  match p with
  | .outside => exact absurd hok hoff
  | .listed none | .unlocked none =>
      obtain ⟨hrun, h⟩ := hok
      obtain ⟨-, hzero⟩ := h.resolve_right fun h => hoff h.1
      have hfits : CountFits k.count := by
        rw [hzero]
        decide
      obtain ⟨k', hsub, hplace, hcount, -, -⟩ := Sleeper.submit_awake (by omega) hfits
      exact ⟨k', hsub, hk.submit hfits hsub, hplace.trans hrun, Or.inr ⟨rfl, by omega⟩⟩
  | .listed (some _) | .unlocked (some _) =>
      exact (hok.2.elim htimed fun h => hoff h.1).elim
  | .asleep none =>
      obtain ⟨-, hone⟩ := hok.resolve_right fun h => hoff h.1
      have hfits : CountFits k.count := by
        rw [hone]
        decide
      obtain ⟨k', hsub, hplace, -, -, hdl⟩ := Sleeper.submit_idle hk hone
      exact ⟨k', hsub, hk.submit hfits hsub, Or.inr ⟨rfl, hdl, Or.inl hplace⟩⟩
  | .asleep (some _) => exact (hok.2.elim htimed fun h => hoff h.1).elim
  | .leaving => exact (hok.2.elim htimed hoff).elim
  | .relocking => exact absurd hok.2 hoff

/-- A timed waiter is woken by the caller that has taken it off its list. -/
theorem exchanged (hok : p.Ok sp k) (hsp : sp.Timed) : p.Ok .off k.exchange := by
  have hoff : sp ≠ .off := by rcases hsp with rfl | ⟨c, rfl⟩ <;> simp
  have huntimed : ¬ sp.Untimed := by rcases hsp with rfl | ⟨c, rfl⟩ <;> simp [Spot.Untimed]
  match p with
  | .outside => exact absurd hok hoff
  | .listed none | .unlocked none =>
      exact (hok.2.elim (fun h => huntimed h.1) fun h => hoff h.1).elim
  | .listed (some _) | .unlocked (some _) => exact ⟨hok.1, Or.inr ⟨rfl, rfl⟩⟩
  | .asleep none => exact (hok.elim (fun h => huntimed h.1) fun h => hoff h.1).elim
  | .asleep (some _) => exact ⟨hok.1, Or.inr ⟨rfl, Or.inl rfl⟩⟩
  | .leaving => exact ⟨hok.1, Or.inr rfl⟩
  | .relocking => exact absurd hok.2 hoff

end CondPhase.Ok

/-- The caller that has taken the task off its list, and whether it was
timed. -/
def Spot.hand : Spot → Option (Nat × Bool)
  | .submitting c => some (c, false)
  | .waking c => some (c, true)
  | _ => none

namespace CondCaller

/-- The task that the caller has taken off its list, and whether it was
timed. -/
def hand : CondCaller → Option (TaskId × Bool)
  | .submitting t => some (t, false)
  | .waking t _ => some (t, true)
  | _ => none

/-- The caller has the spinlock. -/
def Locks : CondCaller → Prop
  | .waking _ _ | .requesting _ | .sweeping => True
  | _ => False

/-- The caller is in a broadcast. -/
def Broadcasts : CondCaller → Prop
  | .waking _ all | .requesting all => all = true
  | .sweeping | .spreading => True
  | _ => False

/-- The tasks that the caller has yet to wake, when `timed` is the list of
the timed waiters and `moved` the list that a broadcast has moved. -/
def rest (timed moved : List TaskId) : CondCaller → List TaskId
  | .idle | .requesting false => []
  | .submitting u | .waking u false => [u]
  | .waking u true => u :: (timed ++ moved)
  | .requesting true | .sweeping => timed ++ moved
  | .spreading => moved

/-- The list of the timed waiters is the business of the caller that has
the spinlock. -/
theorem rest_of_not_locks {q : CondCaller} (hq : ¬ q.Locks) (timed timed' moved : List TaskId) :
    q.rest timed moved = q.rest timed' moved := by
  cases q with
  | waking u all => exact absurd trivial hq
  | requesting all => exact absurd trivial hq
  | sweeping => exact absurd trivial hq
  | _ => rfl

end CondCaller

/-! ## The lists -/

/-- The hooks that are never on the stack of a broadcast. -/
def CondHook.Lasting (x : CondHook) : Prop := ∀ c, x ≠ .nonTimed c

/-- The lists are what `members` says, and so are the places of the
tasks. -/
structure CondLists (links : Links CondHook) (members : CondHook → List TaskId)
    (spot : TaskId → Spot) : Prop where
  family : Family CondHook.Lasting links fun h => (members h).map .task
  heads : ∀ t, members (.task t) = []
  on : ∀ h t, t ∈ members h ↔ spot t = .on h

namespace CondLists

variable {links : Links CondHook} {members : CondHook → List TaskId} {spot : TaskId → Spot}
  {t u : TaskId} {h : CondHook} {sp : Spot}

theorem mem_task {l : List TaskId} : CondHook.task t ∈ l.map CondHook.task ↔ t ∈ l := by
  rw [List.mem_map]
  constructor
  · rintro ⟨u, hu, heq⟩
    obtain rfl := CondHook.task.inj heq
    exact hu
  · exact fun ht => ⟨t, ht, rfl⟩

/-- A head is in no list. -/
theorem notMem_of_head (hh : ∀ t, h ≠ .task t) (h' : CondHook) :
    h ∉ (members h').map CondHook.task := by
  intro hin
  obtain ⟨t, -, heq⟩ := List.mem_map.mp hin
  exact hh t heq.symm

theorem map_update (members : CondHook → List TaskId) (h : CondHook) (l : List TaskId) :
    (fun h' => (Function.update members h l h').map CondHook.task)
      = Function.update (fun h' => (members h').map CondHook.task) h (l.map .task) := by
  funext h'
  by_cases hh : h' = h
  · subst hh
    simp
  · simp [hh]

theorem isRing (hl : CondLists links members spot) (hh : ∀ t, h ≠ .task t) (hlast : h.Lasting) :
    IsRing links h ((members h).map .task) :=
  hl.family.isRing hlast (notMem_of_head hh)

/-- The places after task `t` has gone from one place to another. -/
theorem on_update {members' : CondHook → List TaskId} (hl : CondLists links members spot)
    (hother : ∀ h' u, u ≠ t → (u ∈ members' h' ↔ u ∈ members h'))
    (hself : ∀ h', t ∈ members' h' ↔ sp = .on h') (h' : CondHook) (u : TaskId) :
    u ∈ members' h' ↔ Function.update spot t sp u = .on h' := by
  by_cases hu : u = t
  · subst hu
    rw [Function.update_self]
    exact hself h'
  · rw [Function.update_of_ne hu, hother h' u hu]
    exact hl.on h' u

theorem add (hl : CondLists links members spot) (hh : ∀ t, h ≠ .task t) (hlast : h.Lasting)
    (hoff : ∀ h', spot t ≠ .on h') :
    CondLists (links.addTail h (.task t)) (Function.update members h (members h ++ [t]))
      (Function.update spot t (.on h)) := by
  have hnotin : ∀ h', t ∉ members h' := fun h' hin => hoff h' ((hl.on h' t).mp hin)
  refine ⟨?_, fun u => ?_, hl.on_update (fun h' u hu => ?_) fun h' => ?_⟩
  · rw [map_update, List.map_append]
    exact hl.family.addTail (hl.isRing hh hlast) (notMem_of_head hh)
      (fun h' hin => hnotin h' (mem_task.mp hin)) (by rw [hl.heads]; rfl) (hh t).symm
  · rw [Function.update_of_ne (hh u).symm]
    exact hl.heads u
  · by_cases hh' : h' = h
    · subst hh'
      rw [Function.update_self, List.mem_append, List.mem_singleton]
      exact or_iff_left hu
    · rw [Function.update_of_ne hh']
  · by_cases hh' : h' = h
    · subst hh'
      simp
    · rw [Function.update_of_ne hh']
      refine iff_of_false (hnotin h') fun heq => ?_
      exact hh' (Spot.on.inj heq).symm

theorem take (hl : CondLists links members spot) (hin : t ∈ members h) (hsp : ∀ h', sp ≠ .on h') :
    CondLists (links.remove (.task t)) (Function.update members h ((members h).erase t))
      (Function.update spot t sp) := by
  have hon := (hl.on h t).mp hin
  have hnd : (members h).Nodup := by
    have hring := hl.family.ring h (by simpa using List.ne_nil_of_mem hin)
    exact List.Nodup.of_map _ (List.nodup_cons.mp hring.nodup).2
  have hh : ∀ u, CondHook.task u ≠ h := by
    rintro u rfl
    rw [hl.heads] at hin
    cases hin
  refine ⟨?_, fun u => ?_, hl.on_update (fun h' u hu => ?_) fun h' => ?_⟩
  · rw [map_update, List.map_erase fun _ _ => CondHook.task.inj]
    exact hl.family.remove (mem_task.mpr hin)
  · rw [Function.update_of_ne (hh u)]
    exact hl.heads u
  · by_cases hh' : h' = h
    · subst hh'
      rw [Function.update_self]
      exact List.mem_erase_of_ne hu
    · rw [Function.update_of_ne hh']
  · refine iff_of_false (fun hin' => ?_) (hsp h')
    by_cases hh' : h' = h
    · subst hh'
      rw [Function.update_self] at hin'
      exact hnd.not_mem_erase hin'
    · rw [Function.update_of_ne hh', hl.on, hon] at hin'
      exact hh' (Spot.on.inj hin').symm

/-- A task that is in no list goes to another place outside the lists. -/
theorem reset (hl : CondLists links members spot) (hoff : ∀ h', spot t ≠ .on h')
    (hsp : ∀ h', sp ≠ .on h') : CondLists links members (Function.update spot t sp) := by
  refine ⟨hl.family, hl.heads, hl.on_update (fun _ _ _ => Iff.rfl) fun h' => ?_⟩
  exact iff_of_false (fun hin => hoff h' ((hl.on h' t).mp hin)) (hsp h')

/-- The places after the untimed waiters have been moved to caller `c`. -/
def moveSpot (spot : TaskId → Spot) (members : CondHook → List TaskId) (c : Nat) (t : TaskId) : Spot :=
  if t ∈ members .list then .on (.nonTimed c) else spot t

theorem move {c : Nat} (hl : CondLists links members spot) (hnil : members (.nonTimed c) = []) :
    CondLists (links.moveHead .list (.nonTimed c))
      (Function.update (Function.update members (.nonTimed c) (members .list)) .list [])
      (moveSpot spot members c) := by
  refine ⟨?_, fun t => ?_, fun h t => ?_⟩
  · rw [map_update, map_update]
    refine hl.family.moveHead (hl.isRing (by simp) (by simp [CondHook.Lasting]))
      (notMem_of_head (by simp)) (notMem_of_head (by simp)) (by rw [hnil]; rfl) (by simp) ?_
    simp [CondHook.Lasting]
  · rw [Function.update_of_ne (by simp), Function.update_of_ne (by simp)]
    exact hl.heads t
  · unfold moveSpot
    by_cases hlist : h = .list
    · subst hlist
      rw [Function.update_self]
      refine iff_of_false List.not_mem_nil ?_
      split
      · simp
      · rename_i hnot
        exact fun heq => hnot ((hl.on .list t).mpr heq)
    · rw [Function.update_of_ne hlist]
      by_cases hc : h = .nonTimed c
      · subst hc
        rw [Function.update_self]
        split
        · rename_i hin
          exact iff_of_true hin rfl
        · rename_i hnot
          refine iff_of_false hnot fun heq => ?_
          have := (hl.on (.nonTimed c) t).mpr heq
          rw [hnil] at this
          cases this
      · rw [Function.update_of_ne hc]
        split
        · rename_i hin
          refine iff_of_false (fun hin' => ?_) fun heq => hc (Spot.on.inj heq).symm
          have heq := ((hl.on _ t).mp hin).symm.trans ((hl.on _ t).mp hin')
          exact hlist (Spot.on.inj heq).symm
        · exact hl.on h t

end CondLists

/-! ## The invariant -/

/-- The callers and the places agree on who has been taken off a list by
whom. -/
def CondHands (caller : Nat → CondCaller) (spot : TaskId → Spot) : Prop :=
  ∀ c t b, (caller c).hand = some (t, b) ↔ (spot t).hand = some (c, b)

/-- Caller `c` and task `u` let go of each other, or take each other up. -/
theorem CondHands.update {caller : Nat → CondCaller} {spot : TaskId → Spot} {c : Nat} {u : TaskId}
    {q : CondCaller} {sp : Spot} (hhands : CondHands caller spot)
    (hcaller : ∀ t b, (caller c).hand = some (t, b) → t = u)
    (hspot : ∀ c' b, (spot u).hand = some (c', b) → c' = c)
    (hq : ∀ t b, q.hand = some (t, b) → t = u ∧ sp.hand = some (c, b))
    (hsp : ∀ c' b, sp.hand = some (c', b) → c' = c ∧ q.hand = some (u, b)) :
    CondHands (Function.update caller c q) (Function.update spot u sp) := by
  intro c' t b
  by_cases hc : c' = c
  · subst hc
    rw [Function.update_self]
    by_cases ht : t = u
    · subst ht
      rw [Function.update_self]
      exact ⟨fun h => (hq t b h).2, fun h => (hsp c' b h).2⟩
    · rw [Function.update_of_ne ht]
      refine iff_of_false (fun h => ht (hq t b h).1) fun h => ht (hcaller t b ((hhands c' t b).mpr h))
  · rw [Function.update_of_ne hc]
    by_cases ht : t = u
    · subst ht
      rw [Function.update_self]
      refine iff_of_false (fun h => hc (hspot c' b ((hhands c' t b).mp h))) fun h => hc (hsp c' b h).1
    · rw [Function.update_of_ne ht]
      exact hhands c' t b

/-- A task that no caller has taken goes to another place of that kind. -/
theorem CondHands.reset {caller : Nat → CondCaller} {spot : TaskId → Spot} {u : TaskId} {sp : Spot}
    (hhands : CondHands caller spot) (hspot : (spot u).hand = none) (hsp : sp.hand = none) :
    CondHands caller (Function.update spot u sp) := by
  intro c t b
  rw [hhands c t b]
  by_cases ht : t = u
  · subst ht
    rw [Function.update_self, hspot, hsp]
  · rw [Function.update_of_ne ht]

/-- A caller that has taken no task goes on to another such state. -/
theorem CondHands.resetCaller {caller : Nat → CondCaller} {spot : TaskId → Spot} {c : Nat}
    {q : CondCaller} (hhands : CondHands caller spot) (hcaller : (caller c).hand = none)
    (hq : q.hand = none) : CondHands (Function.update caller c q) spot := by
  intro c' t b
  rw [← hhands c' t b]
  by_cases hc : c' = c
  · subst hc
    rw [Function.update_self, hcaller, hq]
  · rw [Function.update_of_ne hc]

namespace Cond

structure Inv (s : Cond) (spot : TaskId → Spot) : Prop where
  lists : CondLists s.links s.members spot
  hands : CondHands s.caller spot
  moved : ∀ c, s.members (.nonTimed c) ≠ [] → (s.caller c).Broadcasts
  lock : ∀ c, s.lock = some c ↔ (s.caller c).Locks
  swept : ∀ c, (s.caller c).Locks → (s.caller c).Broadcasts → s.members .list = []
  calls : ∀ c, s.target c =
    s.woke c ++ (s.caller c).rest (s.members .listTimed) (s.members (.nonTimed c))
  counts : ∀ t, s.added t = s.taken t + if t ∈ s.members .list then 1 else 0
  phase : ∀ t, (s.phase t).Ok (spot t) (s.sleeper t)
  sleeper : ∀ t, (s.sleeper t).Ok

variable {s s' : Cond} {spot : TaskId → Spot} {t u : TaskId} {c c' : Nat} {h : CondHook}

theorem inv_init : init.Inv fun _ => .off := by
  refine ⟨⟨⟨fun h hl => absurd rfl hl, fun x h h' hx => ?_, fun x h hx => ?_, fun x _ _ => rfl,
    fun x _ _ _ => isRing_unlinked x⟩, fun _ => rfl, fun h t => ?_⟩, fun c t b => ?_,
    fun c hc => absurd rfl hc, fun c => ?_, fun c hc => hc.elim, fun c => rfl, fun t => rfl,
    fun t => rfl, fun t => Sleeper.ok_init⟩
  · cases hx
  · cases hx
  · simp [init]
  · simp [init, CondCaller.hand, Spot.hand]
  · simp [init, CondCaller.Locks]

theorem Inv.not_locks (hinv : s.Inv spot) (hlock : s.lock = none) (c : Nat) : ¬ (s.caller c).Locks := by
  rw [← hinv.lock, hlock]
  simp

theorem Inv.not_locks_of_ne (hinv : s.Inv spot) (hlocks : (s.caller c).Locks) (hne : c' ≠ c) :
    ¬ (s.caller c').Locks := by
  rw [← hinv.lock, (hinv.lock c).mpr hlocks]
  exact fun heq => hne (Option.some.inj heq).symm

/-- What `list_pop_front` does. -/
theorem pop_eq (hl : CondLists s.links s.members spot) (hh : ∀ t, h ≠ .task t) :
    s.pop h = match s.members h with
      | [] => (none, s)
      | u :: l => (some u, s.setMembers h l (s.links.remove (.task u))) := by
  have hpop := hl.family.popFront (CondLists.notMem_of_head hh)
  unfold Cond.pop
  rw [hpop]
  cases hl : s.members h with
  | nil => rfl
  | cons u l => simp

/-- A task that a caller has taken off a list is in none. -/
theorem hand_ne_on {sp : Spot} {x : Nat × Bool} (hsp : sp.hand = some x) (h : CondHook) : sp ≠ .on h := by
  rintro rfl
  cases hsp

/-- The hook of a task that is off is in no list. -/
theorem Inv.notInserted (hinv : s.Inv spot) (hoff : spot t = .off) :
    s.links.inserted (.task t) = false := by
  have hnotin : ∀ h, t ∉ s.members h := fun h hin => by
    rw [hinv.lists.on, hoff] at hin
    cases hin
  refine inserted_of_nil (hinv.lists.family.self (.task t) (by simp [CondHook.Lasting]) ?_ ?_)
  · rw [hinv.lists.heads]
    rfl
  · exact fun h hin => hnotin h (CondLists.mem_task.mp hin)

/-! ## Steps of the tasks -/

/-- Task `t` goes to phase `p` with descriptor `k`, and stays at its place. -/
theorem Inv.setTask {p : CondPhase} {k : Sleeper} (hinv : s.Inv spot) (hp : p.Ok (spot t) k)
    (hk : k.Ok) : ((s.setSleeper t k).setPhase t p).Inv spot := by
  refine ⟨hinv.lists, hinv.hands, hinv.moved, hinv.lock, hinv.swept, hinv.calls, hinv.counts,
    fun u => ?_, fun u => ?_⟩
  · by_cases hu : u = t
    · subst hu
      simp only [setSleeper, setPhase, Function.update_self]
      exact hp
    · simp only [setSleeper, setPhase, Function.update_of_ne hu]
      exact hinv.phase u
  · by_cases hu : u = t
    · subst hu
      simp only [setSleeper, setPhase, Function.update_self]
      exact hk
    · simp only [setSleeper, setPhase, Function.update_of_ne hu]
      exact hinv.sleeper u

theorem Inv.setPhase {p : CondPhase} (hinv : s.Inv spot) (hp : p.Ok (spot t) (s.sleeper t)) :
    (s.setPhase t p).Inv spot := by
  have := hinv.setTask hp (hinv.sleeper t)
  rwa [setSleeper, Function.update_eq_self] at this

theorem Inv.setSleeper {k : Sleeper} (hinv : s.Inv spot) (hp : (s.phase t).Ok (spot t) k) (hk : k.Ok) :
    (s.setSleeper t k).Inv spot := by
  have := hinv.setTask hp hk
  rwa [Cond.setPhase, show (s.setSleeper t k).phase = s.phase from rfl, Function.update_eq_self] at this

theorem Inv.unlock {waitNs : Option Nat} (hinv : s.Inv spot) (hp : s.phase t = .listed waitNs) :
    (s.setPhase t (.unlocked waitNs)).Inv spot := by
  have hok := hinv.phase t
  rw [hp] at hok
  cases waitNs <;> exact hinv.setPhase hok

theorem Inv.sleep_pause {k : Sleeper} (hinv : s.Inv spot) (hp : s.phase t = .unlocked none)
    (hpause : (s.sleeper t).pause = some k) :
    ((s.setSleeper t k).setPhase t (.asleep none)).Inv spot := by
  have hok := hinv.phase t
  rw [hp] at hok
  obtain ⟨-, hcount, -, hdl, hplace⟩ := Sleeper.pause_spec (hinv.sleeper t) hpause
  refine hinv.setTask ?_ ((hinv.sleeper t).pause hpause)
  rcases hok.2 with ⟨huntimed, hzero⟩ | ⟨hoff, hneg⟩
  · exact Or.inl ⟨huntimed, by omega⟩
  · refine Or.inr ⟨hoff, hdl, Or.inr (Or.inr ?_)⟩
    rw [hplace, if_neg (by omega)]

theorem Inv.sleep_waitfor {k : Sleeper} {startTime ns : Nat} (hinv : s.Inv spot)
    (hp : s.phase t = .unlocked (some ns)) (hwait : (s.sleeper t).waitfor startTime ns = some k) :
    ((s.setSleeper t k).setPhase t (.asleep (some ns))).Inv spot := by
  have hok := hinv.phase t
  rw [hp] at hok
  obtain ⟨-, -, hnone, hsome⟩ := Sleeper.waitfor_spec hwait
  refine hinv.setTask ⟨?_, ?_⟩ ((hinv.sleeper t).waitfor hwait)
  · by_cases hst : (s.sleeper t).state = .none
    · rw [(hnone hst).1]
      simp
    · rw [(hsome hst).1]
      simp
  · refine hok.2.imp_right fun hoff => ⟨hoff.1, Or.inl ?_⟩
    rw [(hsome (by simp [hoff.2])).2, hoff.2]

theorem Inv.resume_untimed (hinv : s.Inv spot) (hp : s.phase t = .asleep none)
    (hrun : (s.sleeper t).place = .running) : (s.setPhase t .relocking).Inv spot := by
  have hok := hinv.phase t
  rw [hp] at hok
  refine hinv.setPhase ⟨hrun, ?_⟩
  rcases hok with ⟨-, hone⟩ | ⟨hoff, -⟩
  · have := (hinv.sleeper t).awake (by simp [hrun])
    omega
  · exact hoff

theorem Inv.resume_timed {ns : Nat} (hinv : s.Inv spot) (hp : s.phase t = .asleep (some ns))
    (hrun : (s.sleeper t).place = .running) : (s.setPhase t .leaving).Inv spot := by
  have hok := hinv.phase t
  rw [hp] at hok
  exact hinv.setPhase ⟨hrun, hok.2.imp_right And.left⟩

theorem Inv.relock (hinv : s.Inv spot) (hp : s.phase t = .relocking) :
    (s.setPhase t .outside).Inv spot := by
  have hok := hinv.phase t
  rw [hp] at hok
  exact hinv.setPhase hok.2

/-- A step of the scheduler. -/
theorem Inv.task {m : SleepMove} {k : Sleeper} (hinv : s.Inv spot)
    (hstep : (s.sleeper t).step m = some k) : (s.setSleeper t k).Inv spot := by
  have hok := hinv.phase t
  have hsl := hinv.sleeper t
  obtain ⟨hcount, hidle, hrun, hidle', hdl⟩ := Sleeper.step_spec hstep
  refine hinv.setSleeper ?_ (hsl.step hstep)
  cases hp : s.phase t with
  | outside =>
      rw [hp] at hok
      exact hok
  | listed waitNs =>
      rw [hp] at hok
      cases waitNs <;> exact absurd hok.1 hrun
  | unlocked waitNs =>
      rw [hp] at hok
      cases waitNs <;> exact absurd hok.1 hrun
  | leaving =>
      rw [hp] at hok
      exact absurd hok.1 hrun
  | relocking =>
      rw [hp] at hok
      exact absurd hok.1 hrun
  | asleep waitNs =>
      rw [hp] at hok
      cases waitNs with
      | none =>
          rcases hok with ⟨-, hone⟩ | ⟨hoff, hdl0, hplace⟩
          · have := hsl.awake hidle
            omega
          · exact Or.inr ⟨hoff, Sleeper.step_queued hstep hdl0 hplace⟩
      | some ns =>
          refine ⟨hidle', hok.2.imp_right fun hoff => ⟨hoff.1, ?_⟩⟩
          exact Sleeper.step_woken hstep hoff.2

/-- A submission that has nothing to do with the condition variable. -/
theorem Inv.submit {k : Sleeper} (hinv : s.Inv spot) (hun : ¬ s.Unwoken t)
    (hfits : CountFits (s.sleeper t).count) (hsub : (s.sleeper t).submit = some k) :
    (s.setSleeper t k).Inv spot := by
  have hok := hinv.phase t
  have hsl := hinv.sleeper t
  refine hinv.setSleeper ?_ (hsl.submit hfits hsub)
  -- a task that is not blocked only has its counter changed
  have hawake : (s.sleeper t).place ≠ .idle → k.place = (s.sleeper t).place
      ∧ k.count = (s.sleeper t).count - 1 ∧ k.state = (s.sleeper t).state
      ∧ k.task.deadline = (s.sleeper t).task.deadline := by
    intro hne
    obtain ⟨k', hk', hrest⟩ := Sleeper.submit_awake (hsl.awake hne) hfits
    obtain rfl := Option.some.inj (hk'.symm.trans hsub)
    exact hrest
  cases hp : s.phase t with
  | outside =>
      rw [hp] at hok
      exact hok
  | listed waitNs =>
      rw [hp] at hok
      cases waitNs with
      | none =>
          obtain ⟨hplace, hcount, -, -⟩ := hawake (by simp [hok.1])
          refine ⟨hplace.trans hok.1, Or.inr ?_⟩
          rcases hok.2 with ⟨-, hzero⟩ | ⟨hoff, hneg⟩
          · exact absurd (Or.inl ⟨Or.inl hp, hzero⟩) hun
          · exact ⟨hoff, by omega⟩
      | some ns =>
          obtain ⟨hplace, -, hstate, -⟩ := hawake (by simp [hok.1])
          exact ⟨hplace.trans hok.1, hok.2.imp_right fun h => ⟨h.1, hstate.trans h.2⟩⟩
  | unlocked waitNs =>
      rw [hp] at hok
      cases waitNs with
      | none =>
          obtain ⟨hplace, hcount, -, -⟩ := hawake (by simp [hok.1])
          refine ⟨hplace.trans hok.1, Or.inr ?_⟩
          rcases hok.2 with ⟨-, hzero⟩ | ⟨hoff, hneg⟩
          · exact absurd (Or.inl ⟨Or.inr hp, hzero⟩) hun
          · exact ⟨hoff, by omega⟩
      | some ns =>
          obtain ⟨hplace, -, hstate, -⟩ := hawake (by simp [hok.1])
          exact ⟨hplace.trans hok.1, hok.2.imp_right fun h => ⟨h.1, hstate.trans h.2⟩⟩
  | asleep waitNs =>
      rw [hp] at hok
      cases waitNs with
      | none =>
          rcases hok with ⟨-, hone⟩ | ⟨hoff, hdl, hplace⟩
          · exact absurd (Or.inr ⟨hp, hone⟩) hun
          · obtain ⟨hplace', -, -, hdl'⟩ := hawake (by rintro heq; rw [heq] at hplace; simp at hplace)
            refine Or.inr ⟨hoff, hdl'.trans hdl, ?_⟩
            rw [hplace']
            exact hplace
      | some ns =>
          obtain ⟨hplace, -, hstate, -⟩ := hawake hok.1
          rw [CondPhase.Ok, hplace, hstate]
          exact hok
  | leaving =>
      rw [hp] at hok
      obtain ⟨hplace, -⟩ := hawake (by simp [hok.1])
      exact ⟨hplace.trans hok.1, hok.2⟩
  | relocking =>
      rw [hp] at hok
      obtain ⟨hplace, -⟩ := hawake (by simp [hok.1])
      exact ⟨hplace.trans hok.1, hok.2⟩

/-- A task registers with the list of head `h`. -/
theorem Inv.register {waitNs : Option Nat} {added : TaskId → Nat} (hinv : s.Inv spot)
    (hlock : s.lock = none) (hp : s.phase t = .outside) (hh : h = .list ∨ h = .listTimed)
    (hok : (CondPhase.listed waitNs).Ok (.on h) (s.sleeper t))
    (hadded : ∀ u, added u = s.taken u
      + if u ∈ (s.register t h waitNs).members .list then 1 else 0) :
    Inv { s.register t h waitNs with added := added } (Function.update spot t (.on h)) := by
  have hoff : spot t = .off := by
    have := hinv.phase t
    rwa [hp] at this
  have htask : ∀ u, h ≠ .task u := by rcases hh with rfl | rfl <;> simp
  have hlast : h.Lasting := by rcases hh with rfl | rfl <;> simp [CondHook.Lasting]
  have hmoved : ∀ c, (s.register t h waitNs).members (.nonTimed c) = s.members (.nonTimed c) := fun c =>
    Function.update_of_ne (hlast c).symm ..
  refine ⟨hinv.lists.add htask hlast (by simp [hoff]), ?_, fun c hne => ?_, hinv.lock,
    fun c hc => absurd hc (hinv.not_locks hlock c), fun c => ?_, hadded, fun u => ?_, hinv.sleeper⟩
  · exact hinv.hands.reset (by rw [hoff]; rfl) rfl
  · refine hinv.moved c ?_
    rwa [← hmoved c]
  · show s.target c = s.woke c ++ (s.caller c).rest _ ((s.register t h waitNs).members (.nonTimed c))
    rw [hmoved c, hinv.calls c]
    rw [CondCaller.rest_of_not_locks (hinv.not_locks hlock c)]
  · by_cases hu : u = t
    · subst hu
      simp only [Cond.register, setMembers, Cond.setPhase, Function.update_self]
      exact hok
    · simp only [Cond.register, setMembers, Cond.setPhase, Function.update_of_ne hu]
      exact hinv.phase u

theorem Inv.wait {time : Option (Nat × Nat)} (hinv : s.Inv spot) (hlock : s.lock = none)
    (hp : s.phase t = .outside) (hrun : (s.sleeper t).place = .running)
    (hcount : time = none → (s.sleeper t).count = 0) : ∃ spot', (s.wait t time).Inv spot' := by
  have hoff : spot t = .off := by
    have := hinv.phase t
    rwa [hp] at this
  rcases time with _ | ⟨now, abstime⟩
  · have hok : (CondPhase.listed none).Ok (.on .list) (s.sleeper t) :=
      ⟨hrun, Or.inl ⟨Or.inl rfl, hcount rfl⟩⟩
    refine ⟨_, hinv.register hlock hp (Or.inl rfl) hok fun u => ?_⟩
    have hcounts := hinv.counts u
    simp only [Cond.register, setMembers, Cond.setPhase, Function.update_self, List.mem_append,
      List.mem_singleton]
    by_cases hu : u = t
    · subst hu
      have hnotin : u ∉ s.members .list := fun hin => by
        rw [hinv.lists.on, hoff] at hin
        cases hin
      rw [if_neg hnotin] at hcounts
      rw [Function.update_self, if_pos (Or.inr rfl)]
      omega
    · rw [Function.update_of_ne hu]
      simp only [hu, or_false]
      exact hcounts
  · unfold Cond.wait
    dsimp only
    split
    · exact ⟨spot, hinv⟩
    · have hok : (CondPhase.listed (some (abstime - now))).Ok (.on .listTimed) (s.sleeper t) :=
        ⟨hrun, Or.inl (Or.inl rfl)⟩
      exact ⟨_, hinv.register hlock hp (Or.inr rfl) hok hinv.counts⟩

/-- A timed waiter takes itself off its list. -/
theorem Inv.leave (hinv : s.Inv spot) (hlock : s.lock = none) (hp : s.phase t = .leaving) :
    ∃ spot', (s.leave t).Inv spot' := by
  have hok := hinv.phase t
  rw [hp] at hok
  obtain ⟨hrun, hor⟩ := hok
  have hnohand : ∀ c, spot t ≠ .waking c := by
    intro c heq
    have hhand : (spot t).hand = some (c, true) := by rw [heq]; rfl
    have := (hinv.hands c t true).mpr hhand
    cases hq : s.caller c with
    | waking u all =>
        refine hinv.not_locks hlock c ?_
        rw [hq]
        trivial
    | _ =>
        rw [hq] at this
        cases this
  rcases hor with (hon | ⟨c, hhand⟩) | hoff
  · have hin : t ∈ s.members .listTimed := (hinv.lists.on _ t).mpr hon
    have hring := hinv.lists.isRing (h := .listTimed) (by simp) (by simp [CondHook.Lasting])
    have hins : s.links.inserted (.task t) = true :=
      hring.inserted (CondLists.mem_task.mpr hin)
    refine ⟨Function.update spot t .off, ?_⟩
    rw [Cond.leave, if_pos hins]
    refine ⟨hinv.lists.take hin (by simp), hinv.hands.reset (by rw [hon]; rfl) rfl, fun c hne => ?_,
      hinv.lock, fun c hc => absurd hc (hinv.not_locks hlock c), fun c => ?_, hinv.counts, fun u => ?_,
      hinv.sleeper⟩
    · exact hinv.moved c hne
    · show s.target c = s.woke c ++ (s.caller c).rest _ (s.members (.nonTimed c))
      rw [hinv.calls c, CondCaller.rest_of_not_locks (hinv.not_locks hlock c)]
    · by_cases hu : u = t
      · subst hu
        simp only [setMembers, Cond.setPhase, Function.update_self]
        exact ⟨hrun, rfl⟩
      · simp only [setMembers, Cond.setPhase, Function.update_of_ne hu]
        exact hinv.phase u
  · exact absurd hhand (hnohand c)
  · have hins : s.links.inserted (.task t) = false := hinv.notInserted hoff
    refine ⟨spot, ?_⟩
    rw [Cond.leave, hins]
    exact hinv.setPhase ⟨hrun, hoff⟩

end Cond

end Nosv
