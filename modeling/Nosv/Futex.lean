import Nosv.Lib.Run

/-!
# Sleeping on a futex

`nosv_futex_wait` and `nosv_futex_signal` for one waiter and any number of
signallers, of which no two have a signal outstanding: a signal begins when
the waiter has returned from all waits that have been signalled before.

* A step is one access to the word, or one event of the system call: the
  comparison of `FUTEX_WAIT`, its return, `FUTEX_WAKE`.
* `FUTEX_WAIT` may return at any time (`interrupt`). A wake that comes late
  ends the wait that it finds, also one that it is not meant for.
* `waits`, `signals` and `returns` are history.

The word is `waits - signals`. As long as the waiter never goes on while
the word is still 1, the pair is a binary semaphore.
-/

namespace Nosv

/-- Where the waiter is in `nosv_futex_wait`. -/
inductive WaiterPc where
  | out
  /-- the word was 0; before `FUTEX_WAIT` compares it -/
  | calling
  | sleeping
  /-- `FUTEX_WAIT` has returned; before the assertion on the word -/
  | returned
  /-- the word was not 0 -/
  | skipped
  deriving DecidableEq, Repr

structure Futex where
  memory : Int
  waiter : WaiterPc
  /-- signallers that are about to call `FUTEX_WAKE` -/
  waking : Nat
  waits : Nat
  signals : Nat
  returns : Nat
  deriving DecidableEq, Repr

inductive FutexMove where
  /-- the increment of `nosv_futex_wait` -/
  | wait
  /-- `FUTEX_WAIT` compares the word -/
  | futexWait
  /-- `FUTEX_WAIT` returns before it is woken -/
  | interrupt
  /-- the assertion on the word, and the return of `nosv_futex_wait` -/
  | leave
  /-- the decrement of `nosv_futex_signal` -/
  | signal
  | futexWake
  deriving DecidableEq, Repr

namespace Futex

/-- `nosv_futex_init` -/
def init : Futex := ⟨0, .out, 0, 0, 0, 0⟩

def step (s : Futex) : FutexMove → Option Futex
  | .wait =>
      if s.waiter = .out then
        some { s with
          memory := s.memory + 1, waits := s.waits + 1, waiter := if s.memory = 0 then .calling else .skipped }
      else none
  | .futexWait =>
      if s.waiter = .calling then some { s with waiter := if s.memory = 1 then .sleeping else .returned } else none
  | .interrupt =>
      if s.waiter = .calling ∨ s.waiter = .sleeping then some { s with waiter := .returned } else none
  | .leave =>
      if s.waiter = .returned ∨ s.waiter = .skipped then some { s with waiter := .out, returns := s.returns + 1 }
      else none
  | .signal =>
      if s.signals = s.returns then
        some { s with
          memory := s.memory - 1, signals := s.signals + 1,
          waking := if 0 < s.memory then s.waking + 1 else s.waking }
      else none
  | .futexWake =>
      if 0 < s.waking then
        some { s with waking := s.waking - 1, waiter := if s.waiter = .sleeping then .returned else s.waiter }
      else none

/-- The assertions of both functions -/
def Asserts (s : Futex) : FutexMove → Prop
  | .wait => s.memory ≤ 0 ∧ (s.memory ≠ 0 → s.memory = -1)
  | .leave => s.waiter = .returned → s.memory = 0
  | .signal => s.memory = 1 ∨ s.memory = 0
  | .futexWait | .interrupt | .futexWake => True

/-- The word counts every wait and every signal once, and a waiter whose
signal has come will be woken. -/
structure Counts (s : Futex) : Prop where
  range : s.memory = -1 ∨ s.memory = 0 ∨ s.memory = 1
  count : s.memory = s.waits - s.signals
  matched : s.returns ≤ s.signals
  woken : s.waiter = .sleeping → s.memory = 1 ∨ 0 < s.waking

/-! ## A binary semaphore -/

inductive SemaphoreMove where
  | post
  | take
  deriving DecidableEq, Repr

/-- `true` when the permit is there -/
def semaphoreStep : Bool → SemaphoreMove → Option Bool
  | false, .post => some true
  | true, .take => some false
  | true, .post | false, .take => none

/-- What a move is for the semaphore -/
def semaphoreMove : FutexMove → Option SemaphoreMove
  | .signal => some .post
  | .leave => some .take
  | .wait | .futexWait | .interrupt | .futexWake => none

/-- The waiter does not go on after `FUTEX_WAIT` while the word is still 1. -/
def OnTime (s : Futex) (m : FutexMove) : Prop := m = .leave → s.waiter = .returned → s.memory ≠ 1

instance (s : Futex) (m : FutexMove) : Decidable (s.OnTime m) := inferInstanceAs (Decidable (_ → _))

/-- The move, if it can be made, finds the word as it should be: the
assertions hold, and a waiter that returns has had its signal. -/
def Correct (s : Futex) (m : FutexMove) : Prop :=
  (s.step m).isSome → s.Counts ∧ s.Asserts m ∧ (m = .leave → s.returns < s.signals)

/-- A run in which the word is a binary semaphore -/
structure IsSemaphore (ms : List FutexMove) (s : Futex) : Prop where
  moves : Run.Along step Correct init ms
  counts : s.Counts
  refines : Run.run semaphoreStep false (ms.filterMap semaphoreMove) = some (decide (s.returns < s.signals))

variable {s s' : Futex} {m : FutexMove} {ms : List FutexMove}

/-! ## The invariant -/

structure Inv (s : Futex) : Prop where
  count : s.memory = s.waits - s.signals
  matched : s.returns ≤ s.signals
  outstanding : s.signals ≤ s.returns + 1
  waits : s.waits = s.returns + if s.waiter = .out then 0 else 1
  skipped : s.waiter = .skipped → s.memory = 0
  woken : s.waiter = .sleeping → s.memory = 1 ∨ 0 < s.waking

theorem inv_init : init.Inv :=
  ⟨by decide, by decide, by decide, by decide, by decide, by decide⟩

theorem Inv.counts (h : s.Inv) : s.Counts := by
  obtain ⟨hcount, hmatched, hout, hwaits, -, hwoken⟩ := h
  refine ⟨?_, hcount, hmatched, hwoken⟩
  split at hwaits <;> omega

theorem Inv.correct (h : s.Inv) (htime : s.OnTime m) : s.Correct m := by
  intro henabled
  have hcounts := h.counts
  obtain ⟨hcount, hmatched, hout, hwaits, hskipped, -⟩ := h
  refine ⟨hcounts, ?_⟩
  cases m with
  | wait =>
      have hpc : s.waiter = .out := by
        by_contra hne
        rw [step, if_neg hne] at henabled
        cases henabled
      rw [if_pos hpc] at hwaits
      refine ⟨⟨by omega, fun hne => by omega⟩, fun heq => nomatch heq⟩
  | leave =>
      have hpc : s.waiter = .returned ∨ s.waiter = .skipped := by
        by_contra hne
        rw [step, if_neg hne] at henabled
        cases henabled
      have hne : s.waiter ≠ .out := by
        rcases hpc with hpc | hpc <;> simp [hpc]
      rw [if_neg hne] at hwaits
      -- the signal has decremented the word, or the word would be 1
      have hzero : s.memory = 0 := by
        rcases hpc with hpc | hpc
        · have := htime rfl hpc
          omega
        · exact hskipped hpc
      exact ⟨fun _ => hzero, fun _ => by omega⟩
  | signal =>
      have hnone : s.signals = s.returns := by
        by_contra hne
        rw [step, if_neg hne] at henabled
        cases henabled
      refine ⟨?_, fun heq => nomatch heq⟩
      show s.memory = 1 ∨ s.memory = 0
      split at hwaits <;> omega
  | futexWait | interrupt | futexWake => exact ⟨trivial, fun heq => nomatch heq⟩

theorem correct_iff (h : s.Inv) : s.Correct m ↔ s.OnTime m := by
  refine ⟨fun hcorrect => ?_, h.correct⟩
  rintro rfl hpc hone
  have henabled : (s.step .leave).isSome := by rw [step, if_pos (Or.inl hpc), Option.isSome_some]
  have hzero := (hcorrect henabled).2.1 hpc
  omega

theorem Inv.next (h : s.Inv) (htime : s.OnTime m) (hstep : s.step m = some s') : s'.Inv := by
  have henabled : (s.step m).isSome := by rw [hstep, Option.isSome_some]
  obtain ⟨-, -, hleave⟩ := h.correct htime henabled
  obtain ⟨hcount, hmatched, hout, hwaits, hskipped, hwoken⟩ := h
  cases m with
  | wait =>
      obtain ⟨hpc, heq⟩ := Option.ite_none_right_eq_some.mp hstep
      obtain rfl := Option.some.inj heq
      rw [if_pos hpc] at hwaits
      refine ⟨?_, hmatched, hout, ?_, fun hskip => ?_, fun hsleep => ?_⟩
      · push_cast
        omega
      · dsimp only
        split <;> simp <;> omega
      · dsimp only at hskip ⊢
        split at hskip
        · cases hskip
        · omega
      · dsimp only at hsleep
        split at hsleep <;> cases hsleep
  | futexWait =>
      obtain ⟨hpc, heq⟩ := Option.ite_none_right_eq_some.mp hstep
      obtain rfl := Option.some.inj heq
      rw [hpc, if_neg (by decide)] at hwaits
      refine ⟨hcount, hmatched, hout, ?_, fun hskip => ?_, fun hsleep => ?_⟩
      · dsimp only
        split <;> exact hwaits
      · dsimp only at hskip
        split at hskip <;> cases hskip
      · dsimp only at hsleep
        split at hsleep
        · rename_i hone
          exact Or.inl hone
        · cases hsleep
  | interrupt =>
      obtain ⟨hpc, heq⟩ := Option.ite_none_right_eq_some.mp hstep
      obtain rfl := Option.some.inj heq
      have hne : s.waiter ≠ .out := by
        rcases hpc with hpc | hpc <;> simp [hpc]
      rw [if_neg hne] at hwaits
      exact ⟨hcount, hmatched, hout, hwaits, (fun hskip => nomatch hskip), fun hsleep => nomatch hsleep⟩
  | leave =>
      obtain ⟨hpc, heq⟩ := Option.ite_none_right_eq_some.mp hstep
      obtain rfl := Option.some.inj heq
      have hne : s.waiter ≠ .out := by
        rcases hpc with hpc | hpc <;> simp [hpc]
      rw [if_neg hne] at hwaits
      have hlt := hleave rfl
      exact ⟨hcount, hlt, by show s.signals ≤ s.returns + 1 + 1; omega, hwaits, (fun hskip => nomatch hskip),
        fun hsleep => nomatch hsleep⟩
  | signal =>
      obtain ⟨hnone, heq⟩ := Option.ite_none_right_eq_some.mp hstep
      obtain rfl := Option.some.inj heq
      refine ⟨?_, by show s.returns ≤ s.signals + 1; omega, by show s.signals + 1 ≤ s.returns + 1; omega, hwaits,
        fun hskip => ?_, fun hsleep => ?_⟩
      · push_cast
        omega
      · -- the wait was skipped for a signal that is still outstanding
        have hzero := hskipped hskip
        rw [hskip, if_neg (by decide)] at hwaits
        omega
      · have hsleep : s.waiter = .sleeping := hsleep
        rw [hsleep, if_neg (by decide)] at hwaits
        have hone : 0 < s.memory := by omega
        dsimp only
        rw [if_pos hone]
        exact Or.inr (Nat.succ_pos _)
  | futexWake =>
      obtain ⟨-, heq⟩ := Option.ite_none_right_eq_some.mp hstep
      obtain rfl := Option.some.inj heq
      refine ⟨hcount, hmatched, hout, ?_, fun hskip => ?_, fun hsleep => ?_⟩
      · dsimp only
        split
        · rename_i hsleep
          rw [hsleep] at hwaits
          exact hwaits
        · exact hwaits
      · dsimp only at hskip
        split at hskip
        · cases hskip
        · exact hskipped hskip
      · dsimp only at hsleep
        split at hsleep
        · cases hsleep
        · rename_i hne
          exact absurd hsleep hne

/-! ## Runs -/

theorem inv_run (htime : Run.Along step OnTime s ms) (hrun : Run.run step s ms = some s') (h : s.Inv) : s'.Inv :=
  Run.invariant_along (fun _ _ _ hC hstep hI => hI.next hC hstep) htime hrun h

/-- What a move does to the permit -/
theorem semaphore_move (h : s.Inv) (htime : s.OnTime m) (hstep : s.step m = some s') :
    match semaphoreMove m with
    | some e => semaphoreStep (decide (s.returns < s.signals)) e = some (decide (s'.returns < s'.signals))
    | none => decide (s'.returns < s'.signals) = decide (s.returns < s.signals) := by
  have henabled : (s.step m).isSome := by rw [hstep, Option.isSome_some]
  obtain ⟨-, -, hleave⟩ := h.correct htime henabled
  cases m with
  | signal =>
      obtain ⟨hnone, heq⟩ := Option.ite_none_right_eq_some.mp hstep
      obtain rfl := Option.some.inj heq
      have hno : ¬ s.returns < s.signals := by omega
      have hyes : s.returns < s.signals + 1 := by omega
      simp [semaphoreMove, hno, hyes, semaphoreStep]
  | leave =>
      obtain ⟨-, heq⟩ := Option.ite_none_right_eq_some.mp hstep
      obtain rfl := Option.some.inj heq
      have hyes := hleave rfl
      have hno : ¬ s.returns + 1 < s.signals := by
        have := h.outstanding
        omega
      simp [semaphoreMove, hno, hyes, semaphoreStep]
  | wait | futexWait | interrupt | futexWake =>
      obtain ⟨-, heq⟩ := Option.ite_none_right_eq_some.mp hstep
      obtain rfl := Option.some.inj heq
      rfl

theorem semaphore_run : ∀ {s s' : Futex} {ms : List FutexMove}, Run.Along step OnTime s ms →
    Run.run step s ms = some s' → s.Inv →
      Run.run semaphoreStep (decide (s.returns < s.signals)) (ms.filterMap semaphoreMove)
        = some (decide (s'.returns < s'.signals))
  | s, s', [], _, hrun, _ => by
      obtain rfl := Option.some.inj hrun
      rfl
  | s, s', m :: ms, htime, hrun, h => by
      obtain ⟨t, hstep, hrest⟩ := Run.run_cons hrun
      obtain ⟨hm, hms⟩ := Run.along_cons hstep htime
      have hmove := semaphore_move h hm hstep
      have ih := semaphore_run hms hrest (h.next hm hstep)
      cases he : semaphoreMove m with
      | none =>
          rw [he] at hmove
          rw [List.filterMap_cons_none he, ← hmove]
          exact ih
      | some e =>
          rw [he] at hmove
          rw [List.filterMap_cons_some he, Run.run, hmove]
          exact ih

/-- The futex is a binary semaphore in exactly the runs in which the waiter
never goes on early. -/
theorem futex_semaphore_iff (hrun : Run.run step init ms = some s) :
    IsSemaphore ms s ↔ Run.Along step OnTime init ms := by
  have hiff : Run.Along step Correct init ms ↔ Run.Along step OnTime init ms :=
    Run.along_iff_of_invariant (R := fun _ _ => True) (I := Inv) (fun _ _ _ _ hC hstep hI => hI.next hC hstep)
      (fun _ _ _ hI => correct_iff hI) (Run.along_of_forall_mem fun _ _ _ => trivial) inv_init
  constructor
  · intro h
    exact hiff.mp h.moves
  · intro htime
    exact ⟨hiff.mpr htime, (inv_run htime hrun inv_init).counts, semaphore_run htime hrun inv_init⟩

/-! ## What `FUTEX_WAIT` promises -/

/-- `FUTEX_WAIT` is not left while the word is 1, neither by an interruption
nor by a wake that comes late. -/
def Prompt (s : Futex) : FutexMove → Prop
  | .interrupt => s.memory ≠ 1
  | .futexWake => s.waiter = .sleeping → s.memory ≠ 1
  | .wait | .futexWait | .leave | .signal => True

/-- A waiter that has returned has had its signal. -/
def Signalled (s : Futex) : Prop := s.Inv ∧ (s.waiter = .returned → s.memory ≠ 1)

theorem Signalled.onTime (h : s.Signalled) (m : FutexMove) : s.OnTime m := fun _ => h.2

theorem Signalled.next (h : s.Signalled) (hprompt : s.Prompt m) (hstep : s.step m = some s') : s'.Signalled := by
  refine ⟨h.1.next (h.onTime m) hstep, fun hreturned => ?_⟩
  cases m with
  | wait =>
      obtain ⟨-, heq⟩ := Option.ite_none_right_eq_some.mp hstep
      obtain rfl := Option.some.inj heq
      dsimp only at hreturned
      split at hreturned <;> cases hreturned
  | futexWait =>
      obtain ⟨-, heq⟩ := Option.ite_none_right_eq_some.mp hstep
      obtain rfl := Option.some.inj heq
      dsimp only at hreturned
      split at hreturned
      · cases hreturned
      · rename_i hne
        exact hne
  | interrupt =>
      obtain ⟨-, heq⟩ := Option.ite_none_right_eq_some.mp hstep
      obtain rfl := Option.some.inj heq
      exact hprompt
  | leave =>
      obtain ⟨-, heq⟩ := Option.ite_none_right_eq_some.mp hstep
      obtain rfl := Option.some.inj heq
      cases hreturned
  | signal =>
      -- the signal of a wait comes once
      obtain ⟨hnone, heq⟩ := Option.ite_none_right_eq_some.mp hstep
      obtain rfl := Option.some.inj heq
      have hreturned : s.waiter = .returned := hreturned
      have hne := h.2 hreturned
      have hcount := h.1.count
      have hwaits := h.1.waits
      rw [hreturned, if_neg (by decide)] at hwaits
      omega
  | futexWake =>
      obtain ⟨-, heq⟩ := Option.ite_none_right_eq_some.mp hstep
      obtain rfl := Option.some.inj heq
      dsimp only at hreturned
      split at hreturned
      · rename_i hsleep
        exact hprompt hsleep
      · exact h.2 hreturned

/-- A system call that comes back for nothing but a signal is on time. -/
theorem onTime_of_prompt (h : Run.Along step Prompt init ms) : Run.Along step OnTime init ms :=
  Run.along_of_invariant (I := Signalled) (fun _ _ _ hC hstep hI => hI.next hC hstep)
    (fun _ m _ hI => hI.onTime m) h ⟨inv_init, by decide⟩

/-- A signal after the waiter has gone to sleep, and one before it waits -/
theorem futex_semaphore_two :
    IsSemaphore [.wait, .futexWait, .signal, .futexWake, .leave, .signal, .wait, .leave] ⟨0, .out, 0, 2, 2, 2⟩ :=
  (futex_semaphore_iff (by decide)).mpr (by decide)

/-- The wake of the first signal comes when the waiter is asleep again. -/
theorem futex_late_wake :
    Run.run step init [.wait, .signal, .futexWait, .leave, .wait, .futexWait, .futexWake, .leave]
        = some ⟨1, .out, 0, 2, 1, 2⟩
      ∧ ¬ IsSemaphore [.wait, .signal, .futexWait, .leave, .wait, .futexWait, .futexWake, .leave]
          ⟨1, .out, 0, 2, 1, 2⟩ := by
  refine ⟨by decide, fun h => ?_⟩
  have := h.counts.matched
  revert this
  decide

end Futex

end Nosv
