import Nosv.DeadlineRuns

/-!
# Suspensions with a timeout

`task_suspend` in `NOSV_SUSPEND_MODE_TIMEOUT_SUBMIT` sets a deadline like
`nosv_waitfor`, but submits the task whatever `set_task_deadline` returns,
and asserts that it has succeeded. The steps are those of the deadline
tasks; a suspension is the compare-exchange, the store that a failure leads
to, and the submission. While a task is in `task_suspend` it makes no other
call.

`begun`, `resubmitted`, `submitted` and `handed` count, and `woken` tells
that a wake came before the submission of a suspension that has not been
handed out. Nothing reads them. A failed assertion is recorded, not
executed: the runs go on as they do without assertions.
-/

namespace Nosv

open Run RBTree Places

structure TimedSuspends where
  waits : Waits
  /-- in `task_suspend`, from the compare-exchange to the submission -/
  suspending : TaskId → Bool
  /-- suspensions begun -/
  begun : TaskId → Nat
  /-- submissions made by `task_suspend` -/
  resubmitted : TaskId → Nat
  /-- all submissions to the scheduler -/
  submitted : TaskId → Nat
  /-- times that a worker got the task -/
  handed : TaskId → Nat
  /-- a wake came before the submission of the last suspension -/
  woken : TaskId → Bool

inductive SuspendMove where
  | other (m : WaitMove)
  | suspend (t : TaskId) (startTime args : Nat)
  | storeNone (t : TaskId)
  | resubmit (t : TaskId)

namespace WaitMove

/-- The task that makes the call. -/
def caller : WaitMove → Option TaskId
  | .finish t | .waitfor t _ _ | .storeNone t | .push t => some t
  | _ => none

/-- The task that is submitted. -/
def submits : WaitMove → Option TaskId
  | .submit t | .push t => some t
  | _ => none

/-- The task that is handed out. -/
def hands : WaitMove → Option TaskId
  | .get t => some t
  | _ => none

end WaitMove

namespace TimedSuspends

/-- One more for task `t`. -/
def count (f : TaskId → Nat) (t : Option TaskId) : TaskId → Nat :=
  match t with
  | none => f
  | some t => Function.update f t (f t + 1)

/-- A task that is handed out has no wake before its submission. -/
def handOut (woken : TaskId → Bool) (t : Option TaskId) : TaskId → Bool :=
  match t with
  | none => woken
  | some t => Function.update woken t false

def step (s : TimedSuspends) : SuspendMove → Option TimedSuspends
  | .other m =>
      if ∀ t ∈ m.caller, s.suspending t = false then
        match s.waits.step m with
        | none => none
        | some w =>
            some { s with waits := w, submitted := count s.submitted m.submits,
                          handed := count s.handed m.hands, woken := handOut s.woken m.hands }
      else none
  | .suspend t startTime args =>
      if s.suspending t = false then
        match s.waits.step (.waitfor t startTime args) with
        | none => none
        | some w =>
            some { s with waits := w, suspending := Function.update s.suspending t true,
                          begun := count s.begun (some t) }
      else none
  | .storeNone t =>
      if s.suspending t = true then
        match s.waits.step (.storeNone t) with
        | none => none
        | some w => some { s with waits := w }
      else none
  | .resubmit t =>
      let w := s.waits
      -- `set_task_deadline` has returned: with success, or after the store
      if s.suspending t = true ∧ (w.place t = .submitting ∨ w.place t = .running) then
        some { s with
          waits := w.put t (w.task t) .queued (w.early t)
          suspending := Function.update s.suspending t false
          resubmitted := count s.resubmitted (some t)
          submitted := count s.submitted (some t)
          woken := Function.update s.woken t (w.place t == .running || w.early t) }
      else none

def init (pid : TaskId → Nat) : TimedSuspends where
  waits := .init pid
  suspending := fun _ => false
  begun := fun _ => 0
  resubmitted := fun _ => 0
  submitted := fun _ => 0
  handed := fun _ => 0
  woken := fun _ => false

/-- How often the task is in the in-queue, in the hands of the server, in
the ready queue and in a deadline tree. -/
def contained (s : TimedSuspends) (t : TaskId) : Nat :=
  (if s.waits.place t = .queued then 1 else 0) + (if s.waits.server.held = some t then 1 else 0)
    + s.waits.ready.count t + (inorder (s.waits.tree (s.waits.pid t))).count t

end TimedSuspends

/-- What is claimed of every state: each suspension submits its task once,
the scheduler has a task as often as it was submitted and not handed out,
and a wake that came before the submission keeps the task out of the
deadline trees. -/
structure SuspendsOnce (s : TimedSuspends) : Prop where
  once : ∀ t, s.begun t = s.resubmitted t + if s.suspending t then 1 else 0
  handed : ∀ t, s.submitted t = s.handed t + s.contained t ∧ s.contained t ≤ 1
  home : ∀ t p, t ∈ inorder (s.waits.tree p) → p = s.waits.pid t
  prompt : ∀ t, s.woken t = true → ∀ p, t ∉ inorder (s.waits.tree p)

namespace TimedSuspends

/-- `assert(res)` in `task_suspend`. -/
def AssertRes (s : TimedSuspends) : SuspendMove → Prop
  | .suspend t startTime args => s.waits.place t = .running →
      ((s.waits.task t).casDeadline startTime args).1 = true
  | _ => True

instance (s : TimedSuspends) (m : SuspendMove) : Decidable (AssertRes s m) := by
  cases m <;> (dsimp only [AssertRes]; infer_instance)

/-- A task that suspends was not woken outside its timed waits, or a
`nosv_waitfor` has returned for it since. -/
def NotWokenEarly (s : TimedSuspends) : SuspendMove → Prop
  | .suspend t _ _ => s.waits.place t = .running → s.waits.early t = false
  | _ => True

instance (s : TimedSuspends) (m : SuspendMove) : Decidable (NotWokenEarly s m) := by
  cases m <;> (dsimp only [NotWokenEarly]; infer_instance)

/-- Every deadline that is set is one. -/
def Counts (s : TimedSuspends) : SuspendMove → Prop
  | .other m => DeadlinesCount s.waits m
  | .suspend t startTime args => DeadlinesCount s.waits (.waitfor t startTime args)
  | _ => True

instance (s : TimedSuspends) (m : SuspendMove) : Decidable (Counts s m) := by
  cases m with
  | other m =>
      apply WaitMove.casesOn (motive := fun m => Decidable (Counts s (.other m))) m <;>
        intros <;> (dsimp only [Counts, DeadlinesCount]; infer_instance)
  | _ => dsimp only [Counts, DeadlinesCount]; infer_instance

end TimedSuspends

/-! ## What a step does to its task -/

/-- Whether the scheduler has a task at this place. -/
def WaitPlace.inside : WaitPlace → Nat
  | .queued | .held | .stored | .ready => 1
  | _ => 0

namespace Waits

/-- The writes of a step to the task it moves: the descriptor, the place,
whether an early wake is pending, and what the server does next. -/
inductive Touch (s : Waits) : WaitMove → TaskId → Task → WaitPlace → Bool → Server → Prop
  | submit {t} (hp : s.place t = .idle) :
      Touch s (.submit t) t (s.task t) .queued (s.early t) s.server
  | finish {t} (hp : s.place t = .running) :
      Touch s (.finish t) t (s.task t) .idle (s.early t) s.server
  | sets {t startTime timeout} (hp : s.place t = .running) (hnone : s.state t = .none) :
      Touch s (.waitfor t startTime timeout) t
        { s.task t with deadline := u64 (startTime + timeout), deadlineState := .pending }
        .submitting (s.early t) s.server
  | lapses {t startTime timeout} (hp : s.place t = .running) (hset : s.state t ≠ .none) :
      Touch s (.waitfor t startTime timeout) t
        { s.task t with deadline := u64 (startTime + timeout) } .lapsing (s.early t) s.server
  | storeNone {t} (hp : s.place t = .lapsing) :
      Touch s (.storeNone t) t (deadlineTaskWakeUp (s.task t)) .running false s.server
  | push {t} (hp : s.place t = .submitting) :
      Touch s (.push t) t (s.task t) .queued (s.early t) s.server
  | wake (t) :
      Touch s (.wake t) t (s.task t).exchangeReady (s.place t)
        (s.early t || s.state t == .none || s.state t == .pending) s.server
  | insertReady {t} (hidle : s.server = .idle) (hp : s.place t = .queued)
      (hzero : (s.task t).deadline = 0) :
      Touch s (.insert t) t (s.task t) .ready (s.early t) s.server
  | insertWaits {t} (hidle : s.server = .idle) (hp : s.place t = .queued)
      (hne : (s.task t).deadline ≠ 0) (hpending : s.state t = .pending) :
      Touch s (.insert t) t { s.task t with deadlineState := .waiting } .held (s.early t)
        (.inserting t)
  | insertWoken {t} (hidle : s.server = .idle) (hp : s.place t = .queued)
      (hne : (s.task t).deadline ≠ 0) (hnot : s.state t ≠ .pending) :
      Touch s (.insert t) t (s.task t) .held (s.early t) (.lapsed t)
  | insertTree {t} (d : Nat) (hsv : s.server = .inserting t) :
      Touch s .insertTree t { s.task t with deadline := d } .stored (s.early t) .idle
  | insertLapsed {t} (hsv : s.server = .lapsed t) :
      Touch s .insertLapsed t (deadlineTaskWakeUp (s.task t)) .ready false .idle
  | expire {t p now} (hidle : s.server = .idle) (hmin : min? (s.tree p) = some t) :
      Touch s (.expire p now) t (s.task t) .held (s.early t) (.expiring t)
  | expireStore {t} (hsv : s.server = .expiring t) :
      Touch s .expireStore t (deadlineTaskWakeUp (s.task t)) .ready (s.early t) .idle
  | get {t} (hidle : s.server = .idle) (hin : t ∈ s.ready) :
      Touch s (.get t) t (s.task t) .running (s.early t) s.server
  | visit {t todo left count} (hsv : s.server = .walking (t :: todo) left count)
      (hstate : s.state t = .ready) :
      Touch s .visit t (s.task t) .held (s.early t) (.removing t todo left count)
  | purgeStore {t todo left count} (hsv : s.server = .removing t todo left count) :
      Touch s .purgeStore t (deadlineTaskWakeUp (s.task t)) .ready (s.early t)
        (if left - 1 = 0 then .purged count else .walking todo (left - 1) count)

/-- The step wrote this to task `t` and left the other tasks alone. -/
structure Touched (s s' : Waits) (t : TaskId) (k : Task) (pl : WaitPlace) (e : Bool) (w : Server) :
    Prop where
  task : s'.task = Function.update s.task t k
  place : s'.place = Function.update s.place t pl
  early : s'.early = Function.update s.early t e
  server : s'.server = w

/-- The step left all tasks alone. -/
structure Untouched (s s' : Waits) : Prop where
  task : s'.task = s.task
  place : s'.place = s.place
  early : s'.early = s.early
  server : s.server.held = none ∧ s'.server.held = none ∨ s'.server = s.server

inductive Touches (s : Waits) (m : WaitMove) (s' : Waits) : Prop
  | none (hs : Untouched s s') (hsubmits : m.submits = .none) (hhands : m.hands = .none)
      (hcaller : m.caller = .none)
  | one {t k pl e w} (ht : Touch s m t k pl e w) (hs : Touched s s' t k pl e w)

variable {s s' : Waits} {t : TaskId} {k : Task} {pl : WaitPlace} {e : Bool} {w : Server}

theorem touched_put (s : Waits) (t : TaskId) (k : Task) (pl : WaitPlace) (e : Bool) :
    Touched s (s.put t k pl e) t k pl e s.server := ⟨rfl, rfl, rfl, rfl⟩

theorem ensurePid_early (s : Waits) (p : Nat) : (s.ensurePid p).early = s.early := by
  unfold ensurePid
  split <;> rfl

theorem insertDeadline_keeps {n : Nat} {s s' : Waits} (h : s.insertDeadline t n = some s') :
    ∃ d, s'.task = Function.update s.task t { s.task t with deadline := d } ∧ s'.place = s.place
      ∧ s'.early = s.early := by
  obtain ⟨d, tree, rfl, -⟩ := insertDeadline_spec h
  exact ⟨d, rfl, rfl, rfl⟩

theorem waitfor_eq (s : Waits) (t : TaskId) (startTime timeout : Nat) :
    s.step (.waitfor t startTime timeout) = if s.place t = .running then
      some (s.put t ((s.task t).casDeadline startTime timeout).2
        (if ((s.task t).casDeadline startTime timeout).1 then .submitting else .lapsing)
        (s.early t)) else none := rfl

theorem step_touches {m : WaitMove} (hstep : s.step m = some s') : Touches s m s' := by
  cases m with
  | submit t =>
      obtain ⟨hp, heq⟩ := Option.ite_none_right_eq_some.mp hstep
      obtain rfl := Option.some.inj heq
      exact .one (.submit hp) (touched_put ..)
  | finish t =>
      obtain ⟨hp, heq⟩ := Option.ite_none_right_eq_some.mp hstep
      obtain rfl := Option.some.inj heq
      exact .one (.finish hp) (touched_put ..)
  | waitfor t startTime timeout =>
      rw [waitfor_eq] at hstep
      obtain ⟨hp, heq⟩ := Option.ite_none_right_eq_some.mp hstep
      obtain rfl := Option.some.inj heq
      unfold Task.casDeadline
      by_cases hnone : s.state t = .none
      · have hstate : (s.task t).deadlineState = .none := hnone
        simp only [hstate, if_true]
        exact .one (.sets hp hnone) (touched_put ..)
      · have hstate : (s.task t).deadlineState ≠ .none := hnone
        simp only [hstate, if_false, Bool.false_eq_true]
        exact .one (.lapses hp hnone) (touched_put ..)
  | storeNone t =>
      obtain ⟨hp, heq⟩ := Option.ite_none_right_eq_some.mp hstep
      obtain rfl := Option.some.inj heq
      exact .one (.storeNone hp) (touched_put ..)
  | push t =>
      obtain ⟨hp, heq⟩ := Option.ite_none_right_eq_some.mp hstep
      obtain rfl := Option.some.inj heq
      exact .one (.push hp) (touched_put ..)
  | wake t =>
      obtain rfl := Option.some.inj hstep
      exact .one (.wake t) ⟨rfl, rfl, rfl, rfl⟩
  | request t =>
      obtain ⟨-, heq⟩ := Option.ite_none_right_eq_some.mp hstep
      obtain rfl := Option.some.inj heq
      exact .none ⟨rfl, rfl, rfl, Or.inr rfl⟩ rfl rfl rfl
  | insert t =>
      obtain ⟨⟨hidle, hp⟩, heq⟩ := Option.ite_none_right_eq_some.mp hstep
      obtain ⟨htask, hplace, hserver⟩ := ensurePid_same (s := s) (s.task t).pid
      have hearly := s.ensurePid_early (s.task t).pid
      split at heq
      · rename_i hzero
        obtain rfl := Option.some.inj heq
        refine .one (.insertReady hidle hp hzero) ⟨?_, ?_, ?_, hserver⟩
        · simp only [Waits.put, htask]
        · simp only [Waits.put, hplace]
        · simp only [Waits.put, hearly]
      · rename_i hne
        split at heq
        · rename_i hpending
          obtain rfl := Option.some.inj heq
          refine .one (.insertWaits hidle hp hne hpending) ⟨?_, ?_, ?_, rfl⟩
          · simp only [Waits.put, htask]
          · simp only [Waits.put, hplace]
          · simp only [Waits.put, hearly]
        · rename_i hnot
          obtain rfl := Option.some.inj heq
          refine .one (.insertWoken hidle hp hne hnot) ⟨?_, ?_, ?_, rfl⟩
          · simp only [Waits.put, htask]
          · simp only [Waits.put, hplace]
          · simp only [Waits.put, hearly]
  | insertTree =>
      simp only [step] at hstep
      split at hstep
      · rename_i t hsv
        split at hstep
        · rename_i s₁ hins
          obtain rfl := Option.some.inj hstep
          obtain ⟨d, htask, hplace, hearly⟩ := insertDeadline_keeps hins
          refine .one (.insertTree d hsv) ⟨?_, ?_, ?_, rfl⟩
          · simp only [Waits.put, htask, Function.update_self, Function.update_idem]
          · simp only [Waits.put, hplace]
          · simp only [Waits.put, hearly]
        · cases hstep
      · cases hstep
  | insertLapsed =>
      simp only [step] at hstep
      split at hstep
      · rename_i t hsv
        obtain rfl := Option.some.inj hstep
        exact .one (.insertLapsed hsv) ⟨rfl, rfl, rfl, rfl⟩
      · cases hstep
  | expire p now =>
      simp only [step] at hstep
      split at hstep
      · rename_i t hmin
        obtain ⟨⟨hidle, -⟩, heq⟩ := Option.ite_none_right_eq_some.mp hstep
        obtain rfl := Option.some.inj heq
        exact .one (.expire hidle hmin) ⟨rfl, rfl, rfl, rfl⟩
      · cases hstep
  | expireStore =>
      simp only [step] at hstep
      split at hstep
      · rename_i t hsv
        obtain rfl := Option.some.inj hstep
        exact .one (.expireStore hsv) ⟨rfl, rfl, rfl, rfl⟩
      · cases hstep
  | get t =>
      obtain ⟨⟨hidle, hin⟩, heq⟩ := Option.ite_none_right_eq_some.mp hstep
      obtain rfl := Option.some.inj heq
      exact .one (.get hidle hin) ⟨rfl, rfl, rfl, rfl⟩
  | load logicPid =>
      obtain ⟨hidle, heq⟩ := Option.ite_none_right_eq_some.mp hstep
      obtain rfl := Option.some.inj heq
      refine .none ⟨rfl, rfl, rfl, Or.inl ⟨by rw [hidle]; rfl, ?_⟩⟩ rfl rfl rfl
      simp only [load]
      split <;> rfl
  | visit =>
      simp only [step] at hstep
      split at hstep
      · rename_i left count hsv
        obtain rfl := Option.some.inj hstep
        exact .none ⟨rfl, rfl, rfl, Or.inl ⟨by rw [hsv]; rfl, rfl⟩⟩ rfl rfl rfl
      · rename_i t todo left count hsv
        split at hstep
        · rename_i hstate
          obtain rfl := Option.some.inj hstep
          exact .one (.visit hsv hstate) ⟨rfl, rfl, rfl, rfl⟩
        · obtain rfl := Option.some.inj hstep
          exact .none ⟨rfl, rfl, rfl, Or.inl ⟨by rw [hsv]; rfl, rfl⟩⟩ rfl rfl rfl
      · cases hstep
  | purgeStore =>
      simp only [step] at hstep
      split at hstep
      · rename_i t todo left count hsv
        obtain rfl := Option.some.inj hstep
        exact .one (.purgeStore hsv) ⟨rfl, rfl, rfl, rfl⟩
      · cases hstep
  | subtract =>
      simp only [step] at hstep
      split at hstep
      · rename_i count hsv
        obtain rfl := Option.some.inj hstep
        exact .none ⟨rfl, rfl, rfl, Or.inl ⟨by rw [hsv]; rfl, rfl⟩⟩ rfl rfl rfl
      · cases hstep

/-! ## What a step keeps -/

section Steps

variable {m : WaitMove}

/-- Where the task that a step moves comes from. -/
theorem Touch.place_eq (h : s.Inv) (ht : Touch s m t k pl e w) :
    match m with
    | .insertTree | .insertLapsed | .expireStore | .purgeStore => s.place t = .held
    | .expire .. | .visit => s.place t = .stored
    | .get _ => s.place t = .ready
    | _ => True := by
  have hheld (hsv : s.server.held = some t) : s.place t = .held := (h.placing.held t).mpr hsv
  cases ht with
  | insertTree d hsv => exact hheld (by rw [hsv]; rfl)
  | insertLapsed hsv => exact hheld (by rw [hsv]; rfl)
  | expireStore hsv => exact hheld (by rw [hsv]; rfl)
  | purgeStore hsv => exact hheld (by rw [hsv]; rfl)
  | expire hidle hmin => exact ((h.placing.member _ t).mp (min?_mem hmin)).2
  | visit hsv hstate =>
      have hok := h.server
      simp only [ServerOk, hsv] at hok
      exact hok.stored t List.mem_cons_self
  | get hidle hin => exact (h.placing.ready t).mp hin
  | _ => trivial

/-- A wake that was not taken notice of is known as early, but for tasks
that are in a tree or with the server. -/
def EarlyKnown (s : Waits) : Prop :=
  ∀ t, s.state t = .ready → s.place t ≠ .stored → s.place t ≠ .held → s.early t = true

theorem Touch.early (h : s.Inv) (he : s.EarlyKnown) (ht : Touch s m t k pl e w)
    (hready : k.deadlineState = .ready) (hstored : pl ≠ .stored) (hheld : pl ≠ .held) : e = true := by
  have hfrom := ht.place_eq h
  have hkeep (hst : s.place t ≠ .stored) (hhe : s.place t ≠ .held)
      (hk : k.deadlineState = s.state t) : s.early t = true :=
    he t (hk.symm.trans hready) hst hhe
  cases ht with
  | submit hp | finish hp | lapses hp hset | push hp =>
      exact hkeep (by simp [hp]) (by simp [hp]) rfl
  | sets hp hnone => cases hready
  | storeNone hp => cases hready
  | wake =>
      cases hstate : s.state t with
      | none => simp
      | pending => simp
      | ready =>
          rw [he t hstate hstored hheld]
          rfl
      | waiting =>
          rcases h.placing.waiting hstate with hp | hp
          · exact absurd hp hstored
          · exact absurd hp hheld
  | insertReady hidle hp hzero => exact hkeep (by simp [hp]) (by simp [hp]) rfl
  | get hidle hin => exact hkeep (by simp [hfrom]) (by simp [hfrom]) rfl
  | insertWaits | insertWoken | expire | visit => exact absurd rfl hheld
  | insertTree => exact absurd rfl hstored
  | insertLapsed | expireStore | purgeStore => cases hready

theorem EarlyKnown.step (h : s.Inv) (he : s.EarlyKnown) (hs : Touches s m s') :
    s'.EarlyKnown := by
  intro u hstate hstored hheld
  cases hs with
  | none hun =>
      rw [state, hun.task] at hstate
      rw [hun.place] at hstored hheld
      rw [hun.early]
      exact he u hstate hstored hheld
  | one ht htd =>
      rename_i t k pl e w
      rw [state, htd.task] at hstate
      rw [htd.place] at hstored hheld
      rw [htd.early]
      by_cases hu : u = t
      · subst hu
        simp only [Function.update_self] at hstate hstored hheld ⊢
        exact ht.early h he hstate hstored hheld
      · simp only [Function.update_of_ne hu] at hstate hstored hheld ⊢
        exact he u hstate hstored hheld

/-- Only its own calls move a task that is neither idle nor submitted. -/
theorem Touch.place_own (h : s.Inv) (ht : Touch s m t k pl e w)
    (hp : s.place t = .submitting ∨ s.place t = .lapsing ∨ s.place t = .running) :
    m.caller = some t ∨ pl = s.place t := by
  have hfrom := ht.place_eq h
  cases ht with
  | finish | sets | lapses | storeNone | push => exact Or.inl rfl
  | wake => exact Or.inr rfl
  | submit hp' => simp [hp'] at hp
  | insertReady hidle hp' | insertWaits hidle hp' | insertWoken hidle hp' => simp [hp'] at hp
  | insertTree | insertLapsed | expire | expireStore | get | visit | purgeStore =>
      simp [hfrom] at hp

theorem Touches.balance (h : s.Inv) (hs : Touches s m s') (u : TaskId) :
    (s'.place u).inside + (if m.hands = some u then 1 else 0)
      = (s.place u).inside + (if m.submits = some u then 1 else 0) := by
  cases hs with
  | none hun hsubmits hhands => simp [hun.place, hsubmits, hhands]
  | one ht htd =>
      rename_i t k pl e w
      have hfrom := ht.place_eq h
      rw [htd.place]
      by_cases hu : u = t
      · subst hu
        rw [Function.update_self]
        cases ht with
        | submit hp | finish hp | sets hp | lapses hp | storeNone hp | push hp =>
            simp [hp, WaitPlace.inside, WaitMove.hands, WaitMove.submits]
        | insertReady hidle hp | insertWaits hidle hp | insertWoken hidle hp =>
            simp [hp, WaitPlace.inside, WaitMove.hands, WaitMove.submits]
        | wake => rfl
        | insertTree | insertLapsed | expire | expireStore | get | visit | purgeStore =>
            simp [hfrom, WaitPlace.inside, WaitMove.hands, WaitMove.submits]
      · rw [Function.update_of_ne hu]
        cases ht <;> simp [WaitMove.hands, WaitMove.submits, Ne.symm hu]

/-- A task on its way to a ready queue that no tree is on. -/
def Hurried (s : Waits) (t : TaskId) : Prop :=
  s.place t = .ready ∨ (s.place t = .held ∧ s.server = .lapsed t) ∨
    (s.place t = .queued ∧ (s.early t = true ∨ (s.task t).deadline = 0))

theorem Hurried.not_stored (h : Hurried s t) : s.place t ≠ .stored := by
  rcases h with hp | ⟨hp, -⟩ | ⟨hp, -⟩ <;> simp [hp]

/-- The server puts down a lapsed task before it takes another. -/
theorem Touch.server_lapsed (ht : Touch s m t k pl e w) {u : TaskId} (hu : u ≠ t)
    (hsv : s.server = .lapsed u) : w = .lapsed u := by
  cases ht with
  | insertLapsed hsv' =>
      rw [hsv] at hsv'
      exact absurd (Server.lapsed.inj hsv') hu
  | insertWaits hidle | insertWoken hidle | expire hidle =>
      rw [hsv] at hidle
      cases hidle
  | insertTree d hsv' | expireStore hsv' | visit hsv' hstate | purgeStore hsv' =>
      rw [hsv] at hsv'
      cases hsv'
  | _ => exact hsv

theorem Touch.hurried (h : s.Inv) (ht : Touch s m t k pl e w) (hs : Touched s s' t k pl e w)
    (hh : Hurried s t) : Hurried s' t ∨ m.hands = some t := by
  have hfrom := ht.place_eq h
  have hplace : s'.place t = pl := by rw [hs.place, Function.update_self]
  have htask : s'.task t = k := by rw [hs.task, Function.update_self]
  have hearly : s'.early t = e := by rw [hs.early, Function.update_self]
  unfold Hurried at hh ⊢
  rw [hplace, htask, hearly, hs.server]
  cases ht with
  | submit hp | finish hp | sets hp | lapses hp | storeNone hp | push hp => simp [hp] at hh
  | wake =>
      refine Or.inl (hh.imp id (Or.imp id (And.imp id ?_)))
      rintro (htrue | hzero)
      · exact Or.inl (by simp [htrue])
      · exact Or.inr hzero
  | insertReady hidle hp hzero => exact Or.inl (Or.inl rfl)
  | insertWaits hidle hp hne hpending =>
      -- an early wake has exchanged `NOSV_DEADLINE_PENDING`
      simp only [hp, reduceCtorEq, false_and, true_and, false_or, hne, or_false] at hh
      rw [(h.placing.early t hh).1] at hpending
      cases hpending
  | insertWoken hidle hp hne hnot => exact Or.inl (Or.inr (Or.inl ⟨rfl, rfl⟩))
  | insertTree d hsv => simp [hfrom, hsv] at hh
  | insertLapsed hsv | expireStore hsv | purgeStore hsv => exact Or.inl (Or.inl rfl)
  | expire hidle hmin => simp [hfrom] at hh
  | get hidle hin => exact Or.inr rfl
  | visit hsv hstate => simp [hfrom] at hh

theorem Touches.hurried (h : s.Inv) (hs : Touches s m s') {u : TaskId} (hh : Hurried s u) :
    Hurried s' u ∨ m.hands = some u := by
  cases hs with
  | none hun =>
      refine Or.inl ?_
      unfold Hurried at hh ⊢
      rw [hun.place, hun.task, hun.early]
      refine hh.imp id (Or.imp (And.imp id fun hsv => ?_) id)
      rcases hun.server with ⟨hnone, -⟩ | hsame
      · rw [hsv] at hnone
        cases hnone
      · exact hsame.trans hsv
  | one ht htd =>
      rename_i t k pl e w
      by_cases hu : u = t
      · subst hu
        exact ht.hurried h htd hh
      · refine Or.inl ?_
        unfold Hurried at hh ⊢
        rw [htd.place, htd.task, htd.early, htd.server]
        simp only [Function.update_of_ne hu]
        exact hh.imp id (Or.imp (And.imp id fun hsv => ht.server_lapsed hu hsv) id)

end Steps

end Waits

/-! ## Runs -/

namespace TimedSuspends

structure Inv (s : TimedSuspends) : Prop where
  waits : s.waits.Inv
  early : s.waits.EarlyKnown
  own : ∀ t, s.suspending t = true → s.waits.place t = .submitting ∨ s.waits.place t = .lapsing
    ∨ s.waits.place t = .running
  once : ∀ t, s.begun t = s.resubmitted t + if s.suspending t then 1 else 0
  submitted : ∀ t, s.submitted t = s.handed t + (s.waits.place t).inside
  woken : ∀ t, s.woken t = true → Waits.Hurried s.waits t

variable {s s' : TimedSuspends} {t : TaskId}

theorem count_some (f : TaskId → Nat) (t u : TaskId) :
    count f (some t) u = f u + if u = t then 1 else 0 := by
  by_cases hu : u = t
  · subst hu
    simp [count]
  · simp [count, hu]

theorem count_eq (f : TaskId → Nat) (o : Option TaskId) (u : TaskId) :
    count f o u = f u + if o = some u then 1 else 0 := by
  cases o with
  | none => simp [count]
  | some t =>
      rw [count_some]
      simp only [Option.some.injEq, eq_comm]

theorem handOut_eq (f : TaskId → Bool) (o : Option TaskId) (u : TaskId) :
    handOut f o u = (f u && o != some u) := by
  cases o with
  | none => simp [handOut]
  | some t =>
      by_cases hu : u = t
      · subst hu
        simp [handOut]
      · simp [handOut, hu, Ne.symm hu]

/-- A task in `task_suspend` stays there while others move. -/
theorem Inv.own_step {m : WaitMove} {w : Waits} (h : s.Inv) (hs : Waits.Touches s.waits m w)
    {u : TaskId} (hsus : s.suspending u = true) (hcaller : m.caller ≠ some u) :
    w.place u = .submitting ∨ w.place u = .lapsing ∨ w.place u = .running := by
  have hp := h.own u hsus
  cases hs with
  | none hun =>
      rw [hun.place]
      exact hp
  | one ht htd =>
      rename_i t k pl e sv
      rw [htd.place]
      by_cases hu : u = t
      · subst hu
        rw [Function.update_self, (ht.place_own h.waits hp).resolve_left hcaller]
        exact hp
      · rw [Function.update_of_ne hu]
        exact hp

theorem Inv.other {m : WaitMove} {w : Waits} (h : s.Inv) (hcount : DeadlinesCount s.waits m)
    (hfree : ∀ t ∈ m.caller, s.suspending t = false) (hstep : s.waits.step m = some w) :
    Inv { s with waits := w, submitted := count s.submitted m.submits,
                 handed := count s.handed m.hands, woken := handOut s.woken m.hands } := by
  have hs := Waits.step_touches hstep
  refine ⟨Waits.inv_step hcount hstep h.waits, h.early.step h.waits hs, fun u hu => ?_, h.once,
    fun u => ?_, fun u hu => ?_⟩
  · refine h.own_step hs hu fun hc => ?_
    rw [hfree u hc] at hu
    cases hu
  · have hbal := hs.balance h.waits u
    have := h.submitted u
    simp only [count_eq]
    omega
  · simp only [handOut_eq, Bool.and_eq_true, bne_iff_ne] at hu
    exact (hs.hurried h.waits (h.woken u hu.1)).resolve_right hu.2

theorem Inv.suspend {startTime args : Nat} {w : Waits} (h : s.Inv)
    (hcount : DeadlinesCount s.waits (.waitfor t startTime args)) (hfree : s.suspending t = false)
    (hstep : s.waits.step (.waitfor t startTime args) = some w) :
    Inv { s with waits := w, suspending := Function.update s.suspending t true,
                 begun := count s.begun (some t) } := by
  have hs := Waits.step_touches hstep
  refine ⟨Waits.inv_step hcount hstep h.waits, h.early.step h.waits hs, fun u hu => ?_, fun u => ?_,
    fun u => ?_, fun u hu => ?_⟩
  · by_cases hut : u = t
    · subst hut
      cases hs with
      | one ht htd =>
          cases ht with
          | sets | lapses => simp [htd.place]
      | none hun hsubmits hhands hcaller => cases hcaller
    · simp only [Function.update_of_ne hut] at hu
      exact h.own_step hs hu fun hc => hut (Option.some.inj hc).symm
  · have := h.once u
    simp only [count_some]
    by_cases hut : u = t
    · subst hut
      simp only [Function.update_self, if_true]
      rw [hfree] at this
      simp only [Bool.false_eq_true, if_false] at this
      omega
    · simp only [Function.update_of_ne hut, if_neg hut]
      exact this
  · have hbal := hs.balance h.waits u
    have := h.submitted u
    simp only [WaitMove.hands, WaitMove.submits, reduceCtorEq, if_false, add_zero] at hbal
    simp only
    omega
  · exact (hs.hurried h.waits (h.woken u hu)).resolve_right (by simp [WaitMove.hands])

theorem Inv.storeNone {w : Waits} (h : s.Inv) (hstep : s.waits.step (.storeNone t) = some w) :
    Inv { s with waits := w } := by
  have hs := Waits.step_touches hstep
  have hcount : DeadlinesCount s.waits (.storeNone t) := trivial
  refine ⟨Waits.inv_step hcount hstep h.waits, h.early.step h.waits hs, fun u hu => ?_, h.once,
    fun u => ?_, fun u hu => ?_⟩
  · by_cases hut : u = t
    · subst hut
      cases hs with
      | one ht htd =>
          cases ht with
          | storeNone => simp [htd.place]
      | none hun hsubmits hhands hcaller => cases hcaller
    · exact h.own_step hs hu fun hc => hut (Option.some.inj hc).symm
  · have hbal := hs.balance h.waits u
    have := h.submitted u
    simp only [WaitMove.hands, WaitMove.submits, reduceCtorEq, if_false, add_zero] at hbal
    simp only
    omega
  · exact (hs.hurried h.waits (h.woken u hu)).resolve_right (by simp [WaitMove.hands])

theorem Inv.resubmit (h : s.Inv) (hsus : s.suspending t = true)
    (hp : s.waits.place t = .submitting ∨ s.waits.place t = .running) :
    Inv { s with
      waits := s.waits.put t (s.waits.task t) .queued (s.waits.early t)
      suspending := Function.update s.suspending t false
      resubmitted := count s.resubmitted (some t)
      submitted := count s.submitted (some t)
      woken := Function.update s.woken t (s.waits.place t == .running || s.waits.early t) } := by
  have hok := h.waits.placing.placeOk t
  have hfrom : s.waits.place t ≠ .stored ∧ s.waits.place t ≠ .held ∧ s.waits.place t ≠ .ready := by
    rcases hp with hp | hp <;> simp [hp]
  have hqueued : WaitPlace.queued.Ok (s.waits.task t) := by
    rcases hp with hp | hp
    · rw [hp] at hok
      exact Or.inr hok
    · rw [hp] at hok
      exact Or.inl hok
  have hinv := h.waits.put hfrom (by decide) rfl hqueued fun he => (h.waits.placing.early t he).1
  refine ⟨hinv, fun u hstate hst hhe => ?_, fun u hu => ?_, fun u => ?_, fun u => ?_, fun u hu => ?_⟩
  · by_cases hut : u = t
    · subst hut
      simp only [Waits.state, Waits.put, Function.update_self] at hstate ⊢
      exact h.early u hstate hfrom.1 hfrom.2.1
    · simp only [Waits.state, Waits.put, Function.update_of_ne hut] at hstate hst hhe ⊢
      exact h.early u hstate hst hhe
  · by_cases hut : u = t
    · subst hut
      simp only [Function.update_self] at hu
      cases hu
    · simp only [Waits.put, Function.update_of_ne hut] at hu ⊢
      exact h.own u hu
  · have := h.once u
    simp only [count_some]
    by_cases hut : u = t
    · subst hut
      rw [hsus, if_pos rfl] at this
      simp [this]
    · simp only [Function.update_of_ne hut, if_neg hut]
      exact this
  · have := h.submitted u
    simp only [count_some, Waits.put]
    by_cases hut : u = t
    · subst hut
      rw [Function.update_self]
      rcases hp with hp | hp <;> simp [hp, WaitPlace.inside] at this ⊢ <;> omega
    · simp only [Function.update_of_ne hut, if_neg hut]
      exact this
  · by_cases hut : u = t
    · subst hut
      simp only [Function.update_self, Bool.or_eq_true, beq_iff_eq] at hu
      refine Or.inr (Or.inr ⟨?_, ?_⟩)
      · simp only [Waits.put, Function.update_self]
      · simp only [Waits.put, Function.update_self]
        rcases hu with hrun | hearly
        · rw [hrun] at hok
          exact Or.inr hok.1
        · exact Or.inl hearly
    · simp only [Function.update_of_ne hut] at hu
      have hh := h.woken u hu
      unfold Waits.Hurried at hh ⊢
      simp only [Waits.put, Function.update_of_ne hut]
      exact hh

theorem inv_init (pid : TaskId → Nat) : (init pid).Inv := by
  refine ⟨Waits.inv_init pid, fun t ht => ?_, fun t ht => ?_, fun t => rfl, fun t => rfl,
    fun t ht => ?_⟩
  all_goals cases ht

theorem inv_step {m : SuspendMove} (hcount : Counts s m) (hstep : s.step m = some s')
    (h : s.Inv) : s'.Inv := by
  cases m with
  | other m =>
      obtain ⟨hfree, hstep⟩ := Option.ite_none_right_eq_some.mp hstep
      cases hw : s.waits.step m with
      | none =>
          rw [hw] at hstep
          cases hstep
      | some w =>
          rw [hw] at hstep
          obtain rfl := Option.some.inj hstep
          exact h.other hcount hfree hw
  | suspend t startTime args =>
      obtain ⟨hfree, hstep⟩ := Option.ite_none_right_eq_some.mp hstep
      cases hw : s.waits.step (.waitfor t startTime args) with
      | none =>
          rw [hw] at hstep
          cases hstep
      | some w =>
          rw [hw] at hstep
          obtain rfl := Option.some.inj hstep
          exact h.suspend hcount hfree hw
  | storeNone t =>
      obtain ⟨-, hstep⟩ := Option.ite_none_right_eq_some.mp hstep
      cases hw : s.waits.step (.storeNone t) with
      | none =>
          rw [hw] at hstep
          cases hstep
      | some w =>
          rw [hw] at hstep
          obtain rfl := Option.some.inj hstep
          exact h.storeNone hw
  | resubmit t =>
      obtain ⟨⟨hsus, hp⟩, heq⟩ := Option.ite_none_right_eq_some.mp hstep
      obtain rfl := Option.some.inj heq
      exact h.resubmit hsus hp

/-- The containers hold a task as its place says. -/
theorem contained_eq (h : s.waits.Inv) (t : TaskId) :
    s.contained t = (s.waits.place t).inside := by
  have hheld := h.placing.held t
  have hready := h.placing.ready t
  have htree : (inorder (s.waits.tree (s.waits.pid t))).Nodup :=
    Multiset.coe_nodup.mp (h.placing.nodup (s.waits.pid t))
  have hmem : t ∈ inorder (s.waits.tree (s.waits.pid t)) ↔ s.waits.place t = .stored := by
    have := h.placing.member (s.waits.pid t) t
    simpa [Waits.stored] using this
  unfold contained
  rw [h.placing.readyNodup.count, htree.count]
  simp only [← hheld, hready, hmem]
  cases s.waits.place t <;> rfl

theorem Inv.suspendsOnce (h : s.Inv) : SuspendsOnce s := by
  refine ⟨h.once, fun t => ?_, fun t p hin => ?_, fun t hw p hin => ?_⟩
  · have := h.submitted t
    rw [contained_eq h.waits]
    refine ⟨this, ?_⟩
    cases s.waits.place t <;> decide
  · exact ((h.waits.placing.member p t).mp hin).1
  · exact (h.woken t hw).not_stored ((h.waits.placing.member p t).mp hin).2

/-- The assertion fails exactly for a task that was woken early. -/
theorem Inv.assert_iff (h : s.Inv) (m : SuspendMove) : AssertRes s m ↔ NotWokenEarly s m := by
  cases m with
  | suspend t startTime args =>
      refine forall_congr' fun hp => ?_
      have hok := h.waits.placing.placeOk t
      rw [hp] at hok
      unfold Task.casDeadline
      rcases hok.2 with hstate | hstate
      · simp only [hstate, if_true, true_iff]
        by_contra hearly
        have hready := (h.waits.placing.early t (by simpa using hearly)).1
        rw [Waits.state, hstate] at hready
        cases hready
      · have hearly := h.early t hstate (by simp [hp]) (by simp [hp])
        simp [hstate, hearly]
  | _ => exact Iff.rfl

end TimedSuspends

/-- In every run each suspension with a timeout submits its task once, the
scheduler never has it twice and no deadline tree has it when a wake came
first; and the assertion in `task_suspend` holds in a run exactly if no
task suspends that was woken outside its timed waits. -/
theorem timeout_suspensions (pids : TaskId → Nat) (moves : List SuspendMove) (s : TimedSuspends)
    (hrun : run TimedSuspends.step (.init pids) moves = some s)
    (hcount : Along TimedSuspends.step TimedSuspends.Counts (.init pids) moves) :
    SuspendsOnce s ∧
      (Along TimedSuspends.step TimedSuspends.AssertRes (.init pids) moves
        ↔ Along TimedSuspends.step TimedSuspends.NotWokenEarly (.init pids) moves) := by
  have hkeep : ∀ s m s', TimedSuspends.Counts s m → TimedSuspends.step s m = some s' → s.Inv →
      s'.Inv := fun _ _ _ hC hstep hinv => TimedSuspends.inv_step hC hstep hinv
  have hinit := TimedSuspends.inv_init pids
  refine ⟨(invariant_along hkeep hcount hrun hinit).suspendsOnce, ?_⟩
  exact along_iff_of_invariant (fun s m s' hC _ hstep hinv => hkeep s m s' hC hstep hinv)
    (fun _ m _ hinv => hinv.assert_iff m) hcount hinit

/-- A task that suspends, is woken before it is inserted, and suspends
again; the second time it is woken in its tree. -/
def wokenSuspensions : List SuspendMove :=
  [.other (.submit 1), .other (.insert 1), .other (.get 1),
    .suspend 1 10 90, .other (.wake 1), .resubmit 1, .other (.insert 1), .other .insertLapsed,
    .other (.get 1),
    .suspend 1 20 90, .resubmit 1, .other (.insert 1), .other .insertTree, .other (.wake 1),
    .other (.request 1), .other (.load 0), .other .visit, .other .purgeStore, .other .subtract,
    .other (.get 1)]

theorem timeout_suspensions_woken :
    ∃ s, run TimedSuspends.step (.init fun _ => 0) wokenSuspensions = some s ∧ SuspendsOnce s
      ∧ Along TimedSuspends.step TimedSuspends.AssertRes (.init fun _ => 0) wokenSuspensions
      ∧ s.resubmitted 1 = 2 ∧ s.handed 1 = 3 := by
  have heval : (run TimedSuspends.step (.init fun _ => 0) wokenSuspensions).map
      (fun s => (s.resubmitted 1, s.handed 1)) = some (2, 3) := by
    decide +kernel
  obtain ⟨s, hrun, hval⟩ := Option.map_eq_some_iff.mp heval
  simp only [Prod.mk.injEq] at hval
  obtain ⟨honce, hiff⟩ := timeout_suspensions _ _ s hrun (by decide +kernel)
  exact ⟨s, hrun, honce, hiff.mpr (by decide +kernel), hval⟩

/-- A task is woken while it executes, and then suspends with a timeout:
`set_task_deadline` returns 0. -/
theorem woken_suspension_asserts :
    ¬ ∀ (pids : TaskId → Nat) (moves : List SuspendMove) (s : TimedSuspends),
      run TimedSuspends.step (.init pids) moves = some s →
      SuspendsOnce s ∧ Along TimedSuspends.step TimedSuspends.AssertRes (.init pids) moves := by
  intro hall
  have heval : (run TimedSuspends.step (.init fun _ => 0)
      [.other (.submit 1), .other (.insert 1), .other (.get 1), .other (.wake 1),
        .suspend 1 10 90]).isSome = true := by
    decide +kernel
  obtain ⟨s, hrun⟩ := Option.isSome_iff_exists.mp heval
  have hasserts := (hall _ _ s hrun).2
  revert hasserts
  decide +kernel

end Nosv
