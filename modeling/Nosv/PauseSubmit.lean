import Nosv.Lib.Run
import Nosv.Runtime

/-!
# Pauses and submissions

The protocol on `blocking_count` between a task that is not parallel and
the threads that submit it, with one step for each atomic operation on
the counter. The counter of a fresh task is one; a submission takes one
away, a pause or a suspension adds one, so it holds one, plus what has
been blocked, minus what has been submitted. Both sides decide from it
whether the task is pushed, and they decide differently: a submission
pushes when it reaches zero, a suspension when it finds the counter at
zero or below.

`blocking_count` is an `int32_t`. The reading above needs the submissions
that no pause has consumed yet to fit it.
-/

namespace Nosv

open Run

/-! ## The operations on the descriptor -/

namespace Task

/-- The plain path of `nosv_submit`; the second component tells whether the
task is pushed. -/
def submit (k : Task) : Task × Bool :=
  let count := countDown k.blockingCount
  ({ k with blockingCount := count }, count == 0)

/-- `task_pause` with `use_blocking_count`; the second component tells
whether `worker_yield` is called. -/
def pause (k : Task) : Task × Bool :=
  let count := countUp k.blockingCount
  ({ k with blockingCount := count }, 0 < count)

/-- `task_suspend` of a task with no suspend mode; the second component
tells whether the task is pushed. -/
def suspendNone (k : Task) : Task × Bool :=
  let count := countUp k.blockingCount
  ({ k with word := 0, suspendMode := .none, suspend := false, blockingCount := count }, count ≤ 0)

/-- The counter at the end of a body that does not suspend. -/
def endBody (k : Task) : Task := { k with blockingCount := 1 }

/-- The suspensions of the whole model are these. -/
theorem taskSuspend_none {k : Task} {now : Nat} {events : Bool} (hmode : k.suspendMode = .none) :
    taskSuspend k now events
      = (k.suspendNone.1, if k.suspendNone.2 then .queued else .paused, k.suspendNone.2) := by
  simp only [taskSuspend, hmode, suspendNone, decide_eq_true_eq]
  by_cases hle : countUp k.blockingCount ≤ 0
  · simp [hle]
  · simp [hle]

end Task

/-! ## Steps -/

/-- Where the task is. -/
inductive PausePlace where
  /-- created or completed: it has executed nothing yet -/
  | fresh
  | running
  /-- inside a pause that does not block -/
  | continuing
  | paused
  | suspended
  deriving DecidableEq

structure Pausing where
  task : Task
  place : PausePlace
  /-- how often the task is in the scheduler -/
  queued : Nat
  /-- submissions since the task was last fresh -/
  submits : Nat
  /-- pauses and suspensions that have been entered -/
  blocks : Nat
  /-- pauses and suspensions that have been passed -/
  passed : Nat

inductive PauseMove where
  | submit
  | get
  | pause
  | resume
  | suspend
  | finish

namespace Pausing

def init : Pausing where
  task := nosvCreateInternal 0 ⟨.none, .preferred, 0⟩
  place := .fresh
  queued := 0
  submits := 0
  blocks := 0
  passed := 0

/-- The task is at a pause or a suspension. -/
def AtPause (s : Pausing) : Prop :=
  s.place = .continuing ∨ s.place = .paused ∨ s.place = .suspended

/-- The task executes. -/
def Executes (s : Pausing) : Prop := s.place = .running ∨ s.place = .continuing

instance (s : Pausing) : Decidable s.AtPause := inferInstanceAs (Decidable (_ ∨ _ ∨ _))

instance (s : Pausing) : Decidable s.Executes := inferInstanceAs (Decidable (_ ∨ _))

def step (s : Pausing) : PauseMove → Option Pausing
  | .submit =>
      let (k, pushes) := s.task.submit
      some { s with task := k, submits := s.submits + 1,
                    queued := if pushes then s.queued + 1 else s.queued }
  | .get =>
      if 0 < s.queued then
        some { s with place := .running, queued := s.queued - 1,
                      passed := if s.AtPause then s.passed + 1 else s.passed }
      else none
  | .pause =>
      let (k, yields) := s.task.pause
      if s.place = .running then
        some { s with task := k, blocks := s.blocks + 1,
                      place := if yields then .paused else .continuing }
      else none
  | .resume =>
      if s.place = .continuing then
        some { s with place := .running, passed := s.passed + 1 }
      else none
  | .suspend =>
      let (k, pushes) := s.task.suspendNone
      if s.place = .running then
        some { s with task := k, blocks := s.blocks + 1, place := .suspended,
                      queued := if pushes then s.queued + 1 else s.queued }
      else none
  | .finish =>
      if s.place = .running then
        some { s with task := s.task.endBody, place := .fresh, submits := 0, blocks := 0, passed := 0 }
      else none

end Pausing

/-- What is claimed of every state. -/
structure PausesFollow (s : Pausing) : Prop where
  once : s.queued ≤ 1
  apart : 0 < s.queued → ¬ s.Executes
  passed : 0 < s.passed → s.passed + 1 ≤ s.submits
  woken : s.AtPause → s.blocks + 1 ≤ s.submits → s.place = .continuing ∨ 0 < s.queued

/-- A step that pushes the task finds it outside the scheduler, and leaves
it not executing. -/
def PushesFree (s : Pausing) (m : PauseMove) : Prop :=
  ∀ s' ∈ s.step m, s.queued < s'.queued → s.queued = 0 ∧ ¬ s'.Executes

/-- The task does not end while submissions are unconsumed. -/
def EndsConsumed (s : Pausing) : PauseMove → Prop
  | .finish => s.submits = s.blocks + 1
  | _ => True

/-- The unconsumed submissions fit `blocking_count`. -/
def SubmitsFit (s : Pausing) : PauseMove → Prop
  | .submit => s.submits ≤ s.blocks + 2147483648
  | _ => True

instance (s : Pausing) (m : PauseMove) : Decidable (EndsConsumed s m) := by
  cases m <;> (dsimp only [EndsConsumed]; infer_instance)

instance (s : Pausing) (m : PauseMove) : Decidable (SubmitsFit s m) := by
  cases m <;> (dsimp only [SubmitsFit]; infer_instance)

/-! ## The invariant -/

/-- What the place of the task says about the counters. -/
def Pausing.PlaceOk (s : Pausing) : Prop :=
  match s.place with
  | .fresh => s.blocks = 0 ∧ s.passed = 0 ∧ s.queued = if 0 < s.submits then 1 else 0
  | .running => s.passed = s.blocks ∧ s.blocks < s.submits ∧ s.queued = 0
  | .continuing => s.passed + 1 = s.blocks ∧ s.blocks < s.submits ∧ s.queued = 0
  | .paused | .suspended =>
      s.passed + 1 = s.blocks ∧ s.blocks ≤ s.submits ∧
        s.queued = if s.blocks < s.submits then 1 else 0

structure Pausing.Inv (s : Pausing) : Prop where
  count : s.task.blockingCount = 1 - s.submits + s.blocks
  fits : s.submits ≤ s.blocks + 2147483649
  place : s.PlaceOk

namespace Pausing

variable {s s' : Pausing}

theorem inv_init : init.Inv := ⟨rfl, Nat.zero_le _, rfl, rfl, rfl⟩

/-- There are never more pauses than submissions. -/
theorem Inv.blocks_le (h : s.Inv) : s.blocks ≤ s.submits := by
  have hplace := h.place
  unfold PlaceOk at hplace
  split at hplace <;> omega

/-- A submission pushes the task exactly if it is the first that no pause
has consumed. -/
theorem Inv.submit_pushes (h : s.Inv) (hfit : s.submits ≤ s.blocks + 2147483648) :
    s.task.submit
      = ({ s.task with blockingCount := 1 - (s.submits + 1 : Nat) + s.blocks },
         decide (s.submits = s.blocks)) := by
  have hle := h.blocks_le
  have hcount : countDown s.task.blockingCount = 1 - (s.submits + 1 : Nat) + s.blocks := by
    rw [h.count, countDown, i32_of_fits (by omega) (by omega)]
    omega
  simp only [Task.submit, hcount, Prod.mk.injEq, true_and]
  rw [Bool.eq_iff_iff, beq_iff_eq, decide_eq_true_eq]
  omega

/-- The counter that a pause or a suspension writes. -/
theorem Inv.block_count (h : s.Inv) :
    countUp s.task.blockingCount = 1 - s.submits + (s.blocks + 1 : Nat) := by
  have hle := h.blocks_le
  have hfits := h.fits
  rw [h.count, countUp, i32_of_fits (by omega) (by omega)]
  omega

/-- The first submission that no pause has consumed brings the task to the
scheduler, the others find it there. -/
theorem queued_submit {queued submits blocks : Nat} (hle : blocks ≤ submits)
    (hq : queued = if blocks < submits then 1 else 0) :
    (if submits = blocks then queued + 1 else queued) = if blocks < submits + 1 then 1 else 0 := by
  rw [if_pos (by omega : blocks < submits + 1), hq]
  by_cases heq : submits = blocks
  · rw [if_pos heq, if_neg (by omega)]
  · rw [if_neg heq, if_pos (by omega)]

theorem Inv.submit (h : s.Inv) (hfit : s.submits ≤ s.blocks + 2147483648) :
    Inv { s with task := s.task.submit.1, submits := s.submits + 1,
                 queued := if s.task.submit.2 then s.queued + 1 else s.queued } := by
  have hle := h.blocks_le
  have hplace := h.place
  rw [h.submit_pushes hfit]
  refine ⟨rfl, by simp only; omega, ?_⟩
  unfold PlaceOk at hplace ⊢
  simp only [decide_eq_true_eq]
  cases hp : s.place with
  | fresh =>
      simp only [hp] at hplace ⊢
      obtain ⟨hzero, hpassed, hq⟩ := hplace
      rw [hzero]
      exact ⟨rfl, hpassed, queued_submit (Nat.zero_le _) hq⟩
  | running | continuing =>
      simp only [hp] at hplace ⊢
      rw [if_neg (by omega)]
      exact ⟨hplace.1, by omega, hplace.2.2⟩
  | paused | suspended =>
      simp only [hp] at hplace ⊢
      exact ⟨hplace.1, by omega, queued_submit hle hplace.2.2⟩

theorem Inv.get (h : s.Inv) (hq : 0 < s.queued) :
    Inv { s with place := .running, queued := s.queued - 1,
                 passed := if s.AtPause then s.passed + 1 else s.passed } := by
  have hplace := h.place
  refine ⟨h.count, h.fits, ?_⟩
  unfold PlaceOk at hplace ⊢
  by_cases hat : s.AtPause
  · simp only [if_pos hat]
    rcases hat with hp | hp | hp <;> simp only [hp] at hplace
    · omega
    · split at hplace <;> omega
    · split at hplace <;> omega
  · simp only [if_neg hat]
    unfold AtPause at hat
    cases hp : s.place with
    | fresh =>
        simp only [hp] at hplace
        split at hplace <;> omega
    | running =>
        simp only [hp] at hplace
        omega
    | continuing | paused | suspended =>
        simp only [hp, reduceCtorEq, or_true, or_false, not_true_eq_false] at hat

theorem Inv.pause (h : s.Inv) (hp : s.place = .running) :
    Inv { s with task := s.task.pause.1, blocks := s.blocks + 1,
                 place := if s.task.pause.2 then .paused else .continuing } := by
  have hplace := h.place
  unfold PlaceOk at hplace
  simp only [hp] at hplace
  have hfits := h.fits
  refine ⟨h.block_count, by simp only; omega, ?_⟩
  simp only [Task.pause, h.block_count, decide_eq_true_eq]
  by_cases hyield : (0 : Int) < 1 - s.submits + (s.blocks + 1 : Nat)
  · rw [if_pos hyield]
    refine ⟨by simp only; omega, by simp only; omega, ?_⟩
    simp only
    rw [if_neg (by omega)]
    exact hplace.2.2
  · rw [if_neg hyield]
    exact ⟨by simp only; omega, by simp only; omega, hplace.2.2⟩

theorem Inv.suspend (h : s.Inv) (hp : s.place = .running) :
    Inv { s with task := s.task.suspendNone.1, blocks := s.blocks + 1, place := .suspended,
                 queued := if s.task.suspendNone.2 then s.queued + 1 else s.queued } := by
  have hplace := h.place
  unfold PlaceOk at hplace
  simp only [hp] at hplace
  have hfits := h.fits
  refine ⟨h.block_count, by simp only; omega, by simp only; omega, by simp only; omega, ?_⟩
  simp only [Task.suspendNone, h.block_count, decide_eq_true_eq]
  split <;> split <;> omega

theorem inv_step {m : PauseMove} (hends : EndsConsumed s m) (hfit : SubmitsFit s m)
    (hstep : s.step m = some s') (h : s.Inv) : s'.Inv := by
  cases m with
  | submit =>
      obtain rfl := Option.some.inj hstep
      exact h.submit hfit
  | get =>
      obtain ⟨hq, heq⟩ := Option.ite_none_right_eq_some.mp hstep
      obtain rfl := Option.some.inj heq
      exact h.get hq
  | pause =>
      obtain ⟨hp, heq⟩ := Option.ite_none_right_eq_some.mp hstep
      obtain rfl := Option.some.inj heq
      exact h.pause hp
  | resume =>
      obtain ⟨hp, heq⟩ := Option.ite_none_right_eq_some.mp hstep
      obtain rfl := Option.some.inj heq
      have hplace := h.place
      unfold PlaceOk at hplace
      simp only [hp] at hplace
      exact ⟨h.count, h.fits, hplace⟩
  | suspend =>
      obtain ⟨hp, heq⟩ := Option.ite_none_right_eq_some.mp hstep
      obtain rfl := Option.some.inj heq
      exact h.suspend hp
  | finish =>
      obtain ⟨hp, heq⟩ := Option.ite_none_right_eq_some.mp hstep
      obtain rfl := Option.some.inj heq
      have hplace := h.place
      unfold PlaceOk at hplace
      simp only [hp] at hplace
      exact ⟨rfl, Nat.zero_le _, rfl, rfl, hplace.2.2⟩

/-! ## What follows from the invariant -/

theorem Inv.follow (h : s.Inv) : PausesFollow s := by
  have hplace := h.place
  unfold PlaceOk at hplace
  constructor
  · split at hplace
    all_goals
      first
      | omega
      | (split at hplace <;> omega)
  · rintro hq (hp | hp) <;> simp only [hp] at hplace <;> omega
  · intro hpos
    split at hplace <;> omega
  · rintro (hp | hp | hp) hlt <;> simp only [hp] at hplace
    · exact Or.inl hp
    · rw [if_pos (by omega)] at hplace
      exact Or.inr (by omega)
    · rw [if_pos (by omega)] at hplace
      exact Or.inr (by omega)

/-- After a step the task is queued at most once and not executing, so a
push cannot have found it in the scheduler. -/
theorem Inv.pushesFree {m : PauseMove} (hends : EndsConsumed s m) (hfit : SubmitsFit s m)
    (h : s.Inv) : PushesFree s m := by
  intro s' hs' hlt
  have hfollow := (inv_step hends hfit hs' h).follow
  have honce := hfollow.once
  exact ⟨by omega, hfollow.apart (by omega)⟩

end Pausing

/-- The submissions of a task and its pauses and suspensions: it is never
queued twice, passes its pauses only after the submissions for them, and
no submission is lost. -/
theorem pauses_follow (moves : List PauseMove) (s : Pausing)
    (hrun : run Pausing.step .init moves = some s)
    (hends : Along Pausing.step EndsConsumed .init moves)
    (hfit : Along Pausing.step SubmitsFit .init moves) :
    PausesFollow s ∧ Along Pausing.step PushesFree .init moves := by
  have hboth := hends.and hfit
  have hkeep : ∀ s m s', EndsConsumed s m ∧ SubmitsFit s m → Pausing.step s m = some s' →
      s.Inv → s'.Inv := fun _ _ _ hC hstep hinv => Pausing.inv_step hC.1 hC.2 hstep hinv
  exact ⟨(invariant_along hkeep hboth hrun Pausing.inv_init).follow,
    along_of_invariant hkeep (fun _ _ hC hinv => hinv.pushesFree hC.1 hC.2) hboth Pausing.inv_init⟩

/-- A task that is submitted ahead of its first pause, suspends, is woken
and ends. -/
theorem pauses_follow_ahead :
    ∃ s, run Pausing.step .init [.submit, .submit, .get, .pause, .resume, .suspend, .submit, .get,
        .finish] = some s
      ∧ PausesFollow s ∧ s.place = .fresh := by
  have heval : (run Pausing.step .init [.submit, .submit, .get, .pause, .resume, .suspend,
      .submit, .get, .finish]).map (·.place) = some .fresh := by
    decide +kernel
  obtain ⟨s, hrun, hval⟩ := Option.map_eq_some_iff.mp heval
  exact ⟨s, hrun, (pauses_follow _ s hrun (by decide +kernel) (by decide +kernel)).1, hval⟩

/-! ## Too many submissions -/

namespace Pausing

/-- The first execution, with `n` further submissions. -/
def ahead (n : Nat) : Pausing where
  task := { init.task with blockingCount := i32 (-n) }
  place := .running
  queued := 0
  submits := n + 1
  blocks := 0
  passed := 0

theorem step_ahead (n : Nat) (hn : n < 4294967295) :
    (ahead n).step .submit = some (ahead (n + 1)) := by
  have hne : i32 (-(n + 1 : Nat)) ≠ 0 := i32_neg_ne_zero (Nat.succ_pos n) (by omega)
  simp only [step, ahead, Task.submit, countDown_i32_neg, beq_iff_eq, if_neg hne]

end Pausing

/-- The pause blocks although the task has been submitted, and nothing is
going to push it. -/
theorem Pausing.not_follow_ahead {n : Nat} (hpos : 0 < n) (hlt : n < 4294967296)
    (hwrap : 0 < countUp (i32 (-n))) :
    ∃ s, run Pausing.step .init (.submit :: .get :: (List.replicate n .submit ++ [.pause])) = some s
      ∧ ¬ PausesFollow s := by
  have hfirst : run Pausing.step .init (.submit :: .get :: (List.replicate n .submit ++ [.pause]))
      = run Pausing.step (.ahead 0) (List.replicate n .submit ++ [.pause]) := rfl
  rw [hfirst, run_replicate step_ahead _ (by omega), Nat.zero_add]
  refine ⟨_, rfl, fun hfollow => ?_⟩
  have hwoken := hfollow.woken
  simp only [ahead, hwrap, decide_true, if_true, AtPause, true_or, or_true, reduceCtorEq,
    false_or, Nat.lt_irrefl, imp_false, true_imp_iff] at hwoken
  omega

/-- After `2 ^ 31 + 2` submissions ahead of it the counter has wrapped
around, and the pause blocks a task that nobody is going to push. -/
theorem submissions_lost :
    ¬ ∀ (moves : List PauseMove) (s : Pausing), run Pausing.step .init moves = some s →
      Along Pausing.step EndsConsumed .init moves →
      PausesFollow s ∧ Along Pausing.step PushesFree .init moves := by
  intro hall
  obtain ⟨s, hrun, hnot⟩ := Pausing.not_follow_ahead (n := 2147483650) (by decide) (by decide)
    (by decide +kernel)
  refine hnot (hall _ s hrun (along_of_forall_mem fun m hm t => ?_)).1
  simp only [List.mem_cons, List.mem_append, List.mem_replicate, List.not_mem_nil, or_false] at hm
  rcases hm with rfl | rfl | ⟨-, rfl⟩ | rfl <;> trivial

end Nosv
