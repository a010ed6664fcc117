import Nosv.CondMoves

/-!
# What holds of condition variables in every run

No wake-up is lost or made twice (`cond_follows`), and a wait that has
returned leaves nothing behind in the lists (`cond_clean`), as long as no
submission from elsewhere wakes a task out of `nosv_cond_wait`. It is only
the timed waiters that take themselves off their list, so such a
submission leaves the task in the list of a wait that has returned
(`submission_leaves_hook`).
-/

namespace Nosv

open Run Ring

namespace Cond

variable {s s' : Cond} {spot : TaskId → Spot} {t u : TaskId} {c c' : Nat}

theorem inv_step {m : CondMove} (hun : Undisturbed s m) (hstep : s.step m = some s')
    (hinv : ∃ spot, s.Inv spot) : ∃ spot, s'.Inv spot := by
  obtain ⟨spot, hinv⟩ := hinv
  cases m with
  | wait t time =>
      obtain ⟨⟨hlock, hp, hrun⟩, heq⟩ := Option.ite_none_right_eq_some.mp hstep
      obtain rfl := Option.some.inj heq
      refine hinv.wait hlock hp hrun fun htime => ?_
      subst htime
      exact hun
  | unlock t =>
      simp only [step] at hstep
      split at hstep
      · rename_i waitNs hp
        obtain rfl := Option.some.inj hstep
        exact ⟨spot, hinv.unlock hp⟩
      · cases hstep
  | sleep t startTime =>
      simp only [step] at hstep
      split at hstep
      · rename_i hp
        obtain ⟨k, hpause, rfl⟩ := Option.map_eq_some_iff.mp hstep
        exact ⟨spot, hinv.sleep_pause hp hpause⟩
      · rename_i ns hp
        obtain ⟨k, hwait, rfl⟩ := Option.map_eq_some_iff.mp hstep
        exact ⟨spot, hinv.sleep_waitfor hp hwait⟩
      · cases hstep
  | resume t =>
      obtain ⟨hrun, hstep⟩ := Option.ite_none_right_eq_some.mp hstep
      split at hstep
      · rename_i hp
        obtain rfl := Option.some.inj hstep
        exact ⟨spot, hinv.resume_untimed hp hrun⟩
      · rename_i ns hp
        obtain rfl := Option.some.inj hstep
        exact ⟨spot, hinv.resume_timed hp hrun⟩
      · cases hstep
  | leave t =>
      obtain ⟨⟨hlock, hp⟩, heq⟩ := Option.ite_none_right_eq_some.mp hstep
      obtain rfl := Option.some.inj heq
      exact hinv.leave hlock hp
  | relock t =>
      obtain ⟨hp, heq⟩ := Option.ite_none_right_eq_some.mp hstep
      obtain rfl := Option.some.inj heq
      exact ⟨spot, hinv.relock hp⟩
  | signal c =>
      obtain ⟨⟨hlock, hc⟩, heq⟩ := Option.ite_none_right_eq_some.mp hstep
      obtain rfl := Option.some.inj heq
      exact (hinv.signal hlock hc).1
  | broadcast c =>
      obtain ⟨⟨hlock, hc⟩, heq⟩ := Option.ite_none_right_eq_some.mp hstep
      obtain rfl := Option.some.inj heq
      exact ⟨_, hinv.broadcast hlock hc⟩
  | act c =>
      have hc : s.caller c ≠ .idle := by
        intro hc
        have : s.act c = some s' := hstep
        rw [Cond.act, hc] at this
        cases this
      obtain ⟨s₁, spot', hact, hinv', -⟩ := hinv.act hc
      obtain rfl := Option.some.inj (hact.symm.trans hstep)
      exact ⟨spot', hinv'⟩
  | task t m =>
      obtain ⟨k, hk, rfl⟩ := Option.map_eq_some_iff.mp hstep
      exact ⟨spot, hinv.task hk⟩
  | submit t =>
      obtain ⟨k, hk, rfl⟩ := Option.map_eq_some_iff.mp hstep
      exact ⟨spot, hinv.submit hun.1 hun.2 hk⟩
  | pause t =>
      obtain ⟨hp, hstep⟩ := Option.ite_none_right_eq_some.mp hstep
      obtain ⟨k, hk, rfl⟩ := Option.map_eq_some_iff.mp hstep
      have hok := hinv.phase t
      rw [hp] at hok
      exact ⟨spot, hinv.setSleeper (by rw [hp]; exact hok) ((hinv.sleeper t).pause hk)⟩
  | waitfor t startTime timeout =>
      obtain ⟨hp, hstep⟩ := Option.ite_none_right_eq_some.mp hstep
      obtain ⟨k, hk, rfl⟩ := Option.map_eq_some_iff.mp hstep
      have hok := hinv.phase t
      rw [hp] at hok
      exact ⟨spot, hinv.setSleeper (by rw [hp]; exact hok) ((hinv.sleeper t).waitfor hk)⟩

/-! ## A task that has been taken off its list runs again -/

/-- The steps of the scheduler on one task, as steps of the whole. -/
theorem run_task {ms : List SleepMove} {k : Sleeper} (hrun : run Sleeper.step (s.sleeper t) ms = some k) :
    run step s (ms.map (.task t)) = some (s.setSleeper t k) := by
  induction ms generalizing s with
  | nil =>
      obtain rfl := Option.some.inj hrun
      rw [setSleeper, Function.update_eq_self]
      rfl
  | cons m ms ih =>
      obtain ⟨k', hstep, hrest⟩ := run_cons hrun
      have hstep' : s.step (.task t m) = some (s.setSleeper t k') := by
        simp only [step, hstep, Option.map_some]
      rw [List.map_cons, run, hstep']
      have hself : (s.setSleeper t k').sleeper t = k' := Function.update_self ..
      have := ih (s := s.setSleeper t k') (by rw [hself]; exact hrest)
      simp only [setSleeper, Function.update_idem] at this ⊢
      exact this

end Cond

namespace Sleeper

variable {k : Sleeper}

theorem comes_back_ready (hp : k.place = .ready) :
    ∃ ms k', run step k ms = some k' ∧ k'.place = .running :=
  ⟨[.get], { k with place := .running }, by simp [run, step, hp], rfl⟩

/-- A plain task in the scheduler runs again. -/
theorem comes_back_queued (hdl : k.task.deadline = 0)
    (hp : k.place = .queued ∨ k.place = .ready ∨ k.place = .running) :
    ∃ ms k', run step k ms = some k' ∧ k'.place = .running := by
  rcases hp with hp | hp | hp
  · exact ⟨[.insert, .get], { k with place := .running }, by simp [run, step, hp, hdl], rfl⟩
  · exact comes_back_ready hp
  · exact ⟨[], k, rfl, hp⟩

/-- A woken task runs again, wherever it is. -/
theorem comes_back (hidle : k.place ≠ .idle)
    (hwoken : k.state = .ready ∨ k.place = .ready ∨ k.place = .running) :
    ∃ ms k', run step k ms = some k' ∧ k'.place = .running := by
  cases hp : k.place with
  | idle => exact absurd hp hidle
  | running => exact ⟨[], k, rfl, hp⟩
  | ready => exact comes_back_ready hp
  | lapsing => exact ⟨[.storeNone], ⟨deadlineTaskWakeUp k.task, .running⟩, by simp [run, step, hp], rfl⟩
  | lapsed =>
      exact ⟨[.insertLapsed, .get], ⟨deadlineTaskWakeUp k.task, .running⟩, by simp [run, step, hp], rfl⟩
  | expiring =>
      exact ⟨[.expireStore, .get], ⟨deadlineTaskWakeUp k.task, .running⟩, by simp [run, step, hp], rfl⟩
  | purging =>
      exact ⟨[.purgeStore, .get], ⟨deadlineTaskWakeUp k.task, .running⟩, by simp [run, step, hp], rfl⟩
  | stored =>
      have hready : k.state = .ready := by simpa [hp] using hwoken
      exact ⟨[.purge, .purgeStore, .get], ⟨deadlineTaskWakeUp k.task, .running⟩,
        by simp [run, step, hp, hready], rfl⟩
  | inserting =>
      have hready : k.state = .ready := by simpa [hp] using hwoken
      refine ⟨[.insertTree 0, .purge, .purgeStore, .get],
        ⟨deadlineTaskWakeUp { k.task with deadline := u64 k.task.deadline }, .running⟩, ?_, rfl⟩
      simp only [state] at hready
      simp [run, step, state, hp, hready]
  | queued =>
      have hready : k.state = .ready := by simpa [hp] using hwoken
      by_cases hdl : k.task.deadline = 0
      · exact comes_back_queued hdl (Or.inl hp)
      · exact ⟨[.insert, .insertLapsed, .get], ⟨deadlineTaskWakeUp k.task, .running⟩,
          by simp [run, step, hp, hdl, hready], rfl⟩
  | submitting =>
      have hready : k.state = .ready := by simpa [hp] using hwoken
      simp only [state] at hready
      by_cases hdl : k.task.deadline = 0
      · exact ⟨[.push, .insert, .get], { k with place := .running },
          by simp [run, step, hp, hdl], rfl⟩
      · exact ⟨[.push, .insert, .insertLapsed, .get], ⟨deadlineTaskWakeUp k.task, .running⟩,
          by simp [run, step, state, hp, hdl, hready], rfl⟩

end Sleeper

namespace Cond

variable {s s' : Cond} {spot : TaskId → Spot} {t u : TaskId} {c c' : Nat}

/-- A call comes to its end by its own steps. -/
theorem Inv.finish (c : Nat) (hinv : s.Inv spot) :
    ∃ moves s' spot', (∀ m ∈ moves, m = .act c) ∧ run step s moves = some s' ∧ s'.Inv spot'
      ∧ s'.caller c = .idle ∧ s'.phase = s.phase ∧ (∀ c', c' ≠ c → s'.caller c' = s.caller c')
      ∧ ∀ h t, t ∈ s'.members h → t ∈ s.members h := by
  -- every step of the caller makes `left` smaller
  induction hn : s.left c using Nat.strong_induction_on generalizing s spot with
  | _ n ih =>
      by_cases hc : s.caller c = .idle
      · exact ⟨[], s, spot, by simp, rfl, hinv, hc, rfl, fun _ _ => rfl, fun _ _ h => h⟩
      · obtain ⟨s₁, spot₁, hact, hinv₁, hacts⟩ := hinv.act hc
        obtain ⟨moves, s₂, spot₂, hmoves, hrun, hinv₂, hidle, hphase, hothers, hmembers⟩ :=
          ih (s₁.left c) (hn ▸ hacts.left) hinv₁ rfl
        have hstep : s.step (.act c) = some s₁ := hact
        refine ⟨.act c :: moves, s₂, spot₂, ?_, ?_, hinv₂, hidle, hphase.trans hacts.phase,
          fun c' hc' => (hothers c' hc').trans (hacts.others c' hc'),
          fun h t hin => hacts.members h t (hmembers h t hin)⟩
        · intro m hm
          rcases List.mem_cons.mp hm with rfl | hm
          · rfl
          · exact hmoves m hm
        · rw [run, hstep]
          exact hrun

/-- The task has been taken off its list by caller `c`. -/
def WithCaller (spot : TaskId → Spot) (c : Nat) (t : TaskId) : Prop :=
  spot t = .on (.nonTimed c) ∨ ∃ b, (spot t).hand = some (c, b)

/-- A place other than the two lists is off or with a caller. -/
theorem Inv.spot_cases (hinv : s.Inv spot) (hreg : ¬ s.Registered t) :
    spot t = .off ∨ ∃ c, WithCaller spot c t := by
  cases hsp : spot t with
  | off => exact Or.inl rfl
  | submitting c => exact Or.inr ⟨c, Or.inr ⟨false, by rw [hsp]; rfl⟩⟩
  | waking c => exact Or.inr ⟨c, Or.inr ⟨true, by rw [hsp]; rfl⟩⟩
  | on h =>
      have hin := (hinv.lists.on h t).mpr hsp
      cases h with
      | list => exact absurd (Or.inl hin) hreg
      | listTimed => exact absurd (Or.inr hin) hreg
      | nonTimed c => exact Or.inr ⟨c, Or.inl hsp⟩
      | task u =>
          rw [hinv.lists.heads] at hin
          cases hin

/-- A task that a caller has taken off its list is off when the call has
ended. -/
theorem Inv.off_of_finished {spot' : TaskId → Spot} (hinv : s.Inv spot) (hinv' : s'.Inv spot')
    (hwith : WithCaller spot c t) (hidle : s'.caller c = .idle)
    (hothers : ∀ c', c' ≠ c → s'.caller c' = s.caller c')
    (hmembers : ∀ h t, t ∈ s'.members h → t ∈ s.members h) : spot' t = .off := by
  have hreg : ¬ s'.Registered t := by
    intro hreg
    have hreg : spot t = .on .list ∨ spot t = .on .listTimed :=
      hreg.imp (fun h => (hinv.lists.on _ t).mp (hmembers _ t h))
        fun h => (hinv.lists.on _ t).mp (hmembers _ t h)
    rcases hwith with hon | ⟨b, hhand⟩
    · rw [hon] at hreg
      simp at hreg
    · rcases hreg with heq | heq <;> rw [heq] at hhand <;> cases hhand
  refine (hinv'.spot_cases hreg).resolve_right ?_
  rintro ⟨c', hon' | ⟨b', hhand'⟩⟩
  · have hin' := (hinv'.lists.on _ t).mpr hon'
    have hne : c' ≠ c := by
      rintro rfl
      have := hinv'.moved c' (List.ne_nil_of_mem hin')
      rw [hidle] at this
      exact this
    have hon := (hinv.lists.on _ t).mp (hmembers _ t hin')
    rcases hwith with heq | ⟨b, hhand⟩
    · rw [hon] at heq
      simp [hne] at heq
    · rw [hon] at hhand
      cases hhand
  · have hcaller := (hinv'.hands c' t b').mpr hhand'
    have hne : c' ≠ c := by
      rintro rfl
      rw [hidle] at hcaller
      cases hcaller
    rw [hothers c' hne] at hcaller
    have hhand := (hinv.hands c' t b').mp hcaller
    rcases hwith with heq | ⟨b, hhand''⟩
    · rw [heq] at hhand
      cases hhand
    · rw [hhand''] at hhand
      exact hne (congrArg Prod.fst (Option.some.inj hhand)).symm

theorem Inv.resumes_off {waitNs : Option Nat} (hinv : s.Inv spot) (hp : s.phase t = .asleep waitNs)
    (hoff : spot t = .off) : s.Resumes t := by
  have hok := hinv.phase t
  rw [hp] at hok
  have hback : ∃ ms k, run Sleeper.step (s.sleeper t) ms = some k ∧ k.place = .running := by
    cases waitNs with
    | none =>
        rcases hok with ⟨huntimed, -⟩ | ⟨-, hdl, hplace⟩
        · rw [hoff] at huntimed
          simp [Spot.Untimed] at huntimed
        · exact Sleeper.comes_back_queued hdl hplace
    | some ns =>
        rcases hok.2 with htimed | ⟨-, hwoken⟩
        · rw [hoff] at htimed
          simp [Spot.Timed] at htimed
        · exact Sleeper.comes_back hok.1 hwoken
  obtain ⟨ms, k, hrun, hplace⟩ := hback
  refine ⟨ms.map (.task t), s.setSleeper t k, fun m hm => ?_, run_task hrun, ?_, rfl⟩
  · obtain ⟨a, -, rfl⟩ := List.mem_map.mp hm
    exact Or.inr ⟨t, a, rfl⟩
  · simp only [Cond.setSleeper, Function.update_self]
    exact hplace

/-- A sleeper that has been taken off its list runs again: the caller that
has done so wakes it, and then the scheduler has it. -/
theorem Inv.resumes {waitNs : Option Nat} (hinv : s.Inv spot) (hp : s.phase t = .asleep waitNs)
    (hreg : ¬ s.Registered t) : s.Resumes t := by
  rcases hinv.spot_cases hreg with hoff | ⟨c, hwith⟩
  · exact hinv.resumes_off hp hoff
  · obtain ⟨moves, s₁, spot₁, hmoves, hrun, hinv₁, hidle, hphase, hothers, hmembers⟩ := hinv.finish c
    have hoff := hinv.off_of_finished hinv₁ hwith hidle hothers hmembers
    have hp₁ : s₁.phase t = .asleep waitNs := by rw [hphase, hp]
    obtain ⟨moves', s₂, hmoves', hrun', hplace, hphase'⟩ := hinv₁.resumes_off hp₁ hoff
    refine ⟨moves ++ moves', s₂, fun m hm => ?_, ?_, hplace, hphase'.trans (congrFun hphase t)⟩
    · rcases List.mem_append.mp hm with hm | hm
      · exact Or.inl ⟨c, hmoves m hm⟩
      · exact hmoves' m hm
    · rw [run_append moves' hrun]
      exact hrun'

end Cond

namespace CondCaller

/-- A broadcast is going to wake all that it has moved. -/
theorem mem_rest {q : CondCaller} {timed moved : List TaskId} {t : TaskId} (hq : q.Broadcasts)
    (hin : t ∈ moved) : t ∈ q.rest timed moved := by
  cases q with
  | idle => exact hq.elim
  | submitting u => exact hq.elim
  | waking u all =>
      obtain rfl : all = true := hq
      exact List.mem_cons_of_mem u (List.mem_append_right timed hin)
  | requesting all =>
      obtain rfl : all = true := hq
      exact List.mem_append_right timed hin
  | sweeping => exact List.mem_append_right timed hin
  | spreading => exact hin

end CondCaller

namespace Cond

variable {s s' : Cond} {spot : TaskId → Spot} {t u : TaskId} {c c' : Nat}

/-! ## What follows from the invariant -/

theorem Inv.toWake_iff (hinv : s.Inv spot) : s.ToWake c t ↔
    t ∈ (s.caller c).rest (s.members .listTimed) (s.members (.nonTimed c)) := by
  rw [ToWake, hinv.calls c, List.drop_left]

/-- A waiter that nobody has woken is registered, or about to be woken. -/
theorem Inv.untimed_cases (hinv : s.Inv spot) (hsp : (spot t).Untimed) :
    s.Registered t ∨ ∃ c, s.ToWake c t := by
  rcases hsp with hon | ⟨c, hon⟩ | ⟨c, hhand⟩
  · exact Or.inl (Or.inl ((hinv.lists.on _ t).mpr hon))
  · have hin := (hinv.lists.on _ t).mpr hon
    refine Or.inr ⟨c, hinv.toWake_iff.mpr ?_⟩
    exact CondCaller.mem_rest (hinv.moved c (List.ne_nil_of_mem hin)) hin
  · have := (hinv.hands c t false).mpr (by rw [hhand]; rfl)
    refine Or.inr ⟨c, hinv.toWake_iff.mpr ?_⟩
    cases hq : s.caller c <;> rw [hq] at this <;> cases this
    exact List.mem_cons_self

theorem Inv.timed_cases (hinv : s.Inv spot) (hsp : (spot t).Timed) :
    s.Registered t ∨ ∃ c, s.ToWake c t := by
  rcases hsp with hon | ⟨c, hhand⟩
  · exact Or.inl (Or.inr ((hinv.lists.on _ t).mpr hon))
  · have := (hinv.hands c t true).mpr (by rw [hhand]; rfl)
    refine Or.inr ⟨c, hinv.toWake_iff.mpr ?_⟩
    cases hq : s.caller c with
    | waking u all =>
        rw [hq] at this
        cases this
        cases all <;> exact List.mem_cons_self
    | _ =>
        rw [hq] at this
        cases this

theorem Inv.early {waitNs : Option Nat} (hinv : s.Inv spot)
    (hp : s.phase t = .listed waitNs ∨ s.phase t = .unlocked waitNs) :
    s.Registered t ∨ (∃ c, s.ToWake c t) ∨ s.WontBlock t waitNs := by
  have hok := hinv.phase t
  cases waitNs with
  | none =>
      have hok : (s.sleeper t).place = .running ∧ (((spot t).Untimed ∧ (s.sleeper t).count = 0) ∨
          (spot t = .off ∧ (s.sleeper t).count < 0)) := by
        rcases hp with hp | hp <;> rw [hp] at hok <;> exact hok
      rcases hok.2 with ⟨huntimed, -⟩ | ⟨-, hneg⟩
      · exact or_assoc.mp (Or.inl (hinv.untimed_cases huntimed))
      · refine Or.inr (Or.inr ?_)
        have hup : countUp (s.sleeper t).task.blockingCount = (s.sleeper t).count + 1 :=
          (CountTaken.mk (hinv.sleeper t).low (Int.le_of_lt hneg)).up
        simp only [WontBlock, Task.pause, hup, decide_eq_false_iff_not]
        omega
  | some ns =>
      have hok : (s.sleeper t).place = .running ∧ ((spot t).Timed ∨
          (spot t = .off ∧ (s.sleeper t).state = .ready)) := by
        rcases hp with hp | hp <;> rw [hp] at hok <;> exact hok
      rcases hok.2 with htimed | ⟨-, hready⟩
      · exact or_assoc.mp (Or.inl (hinv.timed_cases htimed))
      · refine Or.inr (Or.inr fun startTime => ?_)
        simp only [Sleeper.state] at hready
        simp [Task.casDeadline, hready]

/-- A task whose wait has returned is off. -/
theorem Inv.off_of_returned (hinv : s.Inv spot)
    (hp : s.phase t = .outside ∨ s.phase t = .relocking
      ∨ (s.phase t = .asleep none ∧ (s.sleeper t).place = .running)) : spot t = .off := by
  have hok := hinv.phase t
  rcases hp with hp | hp | ⟨hp, hrun⟩ <;> rw [hp] at hok
  · exact hok
  · exact hok.2
  · rcases hok with ⟨-, hone⟩ | ⟨hoff, -⟩
    · have := (hinv.sleeper t).awake (by simp [hrun])
      omega
    · exact hoff

theorem Inv.not_registered (hinv : s.Inv spot) (hoff : spot t = .off) : ¬ s.Registered t := by
  rintro (hin | hin) <;> rw [hinv.lists.on, hoff] at hin <;> cases hin

theorem Inv.follows (hinv : s.Inv spot) : CondFollows s := by
  refine ⟨hinv.lists.isRing (by simp) (by simp [CondHook.Lasting]),
    hinv.lists.isRing (by simp) (by simp [CondHook.Lasting]), fun c => ⟨?_, fun hc => ?_⟩,
    fun t waitNs hp => hinv.early hp, fun t waitNs hp hreg => hinv.resumes hp hreg, hinv.counts,
    fun t hp => ?_⟩
  · rw [hinv.calls c]
    exact List.prefix_append ..
  · rw [hinv.calls c, hc]
    exact (List.append_nil _).symm
  · have hnot := hinv.not_registered (hinv.off_of_returned hp)
    rw [hinv.counts t, if_neg fun hin => hnot (Or.inl hin)]
    rfl

theorem Inv.condCalls (hinv : s.Inv spot) (m : CondMove) : CondCalls s m := by
  cases m with
  | signal c =>
      intro hlock hc
      exact (hinv.signal hlock hc).2
  | broadcast c => rfl
  | act c =>
      intro s' hact
      have hc : s.caller c ≠ .idle := by
        intro hc
        rw [Cond.act, hc] at hact
        cases hact
      obtain ⟨s₁, -, hact₁, -, hacts⟩ := hinv.act hc
      obtain rfl := Option.some.inj (hact₁.symm.trans hact)
      exact ⟨hacts.woken, hacts.swept⟩
  | _ => trivial

end Cond

/-- Signals and broadcasts take off their lists whom they should, wake them
and nobody else, and no wake-up is lost. -/
theorem cond_follows (moves : List CondMove) (s : Cond) (hrun : run Cond.step .init moves = some s)
    (hun : Along Cond.step Undisturbed .init moves) :
    CondFollows s ∧ Along Cond.step CondCalls .init moves := by
  have hinit : ∃ spot, Cond.init.Inv spot := ⟨_, Cond.inv_init⟩
  have hkeep : ∀ s m s', Undisturbed s m → Cond.step s m = some s' → (∃ spot, s.Inv spot) →
      ∃ spot, s'.Inv spot := fun _ _ _ hun hstep hinv => Cond.inv_step hun hstep hinv
  obtain ⟨spot, hinv⟩ := invariant_along hkeep hun hrun hinit
  refine ⟨hinv.follows, along_of_invariant hkeep (fun s m _ hinv => ?_) hun hinit⟩
  obtain ⟨spot, hinv⟩ := hinv
  exact hinv.condCalls m

/-- An untimed waiter that is taken off its list before it pauses, and a
timed one that a broadcast wakes on its way to the scheduler. -/
theorem cond_follows_two :
    ∃ s, run Cond.step .init [.submit 1, .task 1 .insert, .task 1 .get, .submit 2, .task 2 .insert,
        .task 2 .get, .wait 1 none, .unlock 1, .wait 2 (some (5, 9)), .signal 0, .act 0, .sleep 1 6,
        .resume 1, .relock 1, .unlock 2, .sleep 2 6, .task 2 .push, .broadcast 0, .act 0, .act 0, .act 0,
        .act 0, .task 2 .insert, .task 2 .insertLapsed, .task 2 .get, .resume 2, .leave 2] = some s
      ∧ CondFollows s ∧ s.phase 1 = .outside ∧ s.woke 0 = [2] := by
  have heval : (run Cond.step .init [.submit 1, .task 1 .insert, .task 1 .get, .submit 2,
      .task 2 .insert, .task 2 .get, .wait 1 none, .unlock 1, .wait 2 (some (5, 9)), .signal 0, .act 0,
      .sleep 1 6, .resume 1, .relock 1, .unlock 2, .sleep 2 6, .task 2 .push, .broadcast 0, .act 0,
      .act 0, .act 0, .act 0, .task 2 .insert, .task 2 .insertLapsed, .task 2 .get, .resume 2,
      .leave 2]).map (fun s => (s.phase 1, s.woke 0)) = some (.outside, [2]) := by
    decide +kernel
  obtain ⟨s, hrun, hval⟩ := Option.map_eq_some_iff.mp heval
  obtain ⟨hphase, hwoke⟩ := Prod.mk.injEq .. |>.mp hval
  exact ⟨s, hrun, (cond_follows _ s hrun (by decide +kernel)).1, hphase, hwoke⟩

/-! ## Waits that have returned -/

namespace Cond

variable {s s' : Cond} {spot : TaskId → Spot} {t u : TaskId} {c c' : Nat}

theorem Inv.clean (hinv : s.Inv spot) : CondClean s := by
  refine ⟨hinv.lists.isRing (by simp) (by simp [CondHook.Lasting]),
    hinv.lists.isRing (by simp) (by simp [CondHook.Lasting]), fun t hp => ?_⟩
  exact hinv.not_registered (hinv.off_of_returned (hp.imp_right Or.inl))

/-- A task whose wait has returned is at no place but `off`. -/
theorem Inv.inWait (hinv : s.Inv spot) (hsp : spot t ≠ .off) : s.InWait t := by
  constructor
  · exact fun hp => hsp (hinv.off_of_returned (Or.inl hp))
  · exact fun hp => hsp (hinv.off_of_returned (Or.inr (Or.inl hp)))

theorem Inv.wakesNext (hinv : s.Inv spot) (hnext : s.wakesNext c = some u) : s.InWait u := by
  unfold Cond.wakesNext at hnext
  have hhand : ∀ b, (s.caller c).hand = some (u, b) → spot u ≠ .off := by
    intro b hhand heq
    have := (hinv.hands c u b).mp hhand
    rw [heq] at this
    cases this
  split at hnext
  · rename_i v hc
    obtain rfl := Option.some.inj hnext
    exact hinv.inWait (hhand false (by rw [hc]; rfl))
  · rename_i v all hc
    obtain rfl := Option.some.inj hnext
    exact hinv.inWait (hhand true (by rw [hc]; rfl))
  · have hpop : s.pop (.nonTimed c) = _ := pop_eq hinv.lists (by simp)
    rw [hpop] at hnext
    cases hl : s.members (.nonTimed c) with
    | nil =>
        rw [hl] at hnext
        cases hnext
    | cons v l =>
        rw [hl] at hnext
        obtain rfl := Option.some.inj hnext
        refine hinv.inWait ?_
        rw [(hinv.lists.on (.nonTimed c) v).mp (hl ▸ List.mem_cons_self)]
        simp
  · cases hnext

theorem Inv.tidy (hinv : s.Inv spot) (m : CondMove) : CondTidy s m := by
  cases m with
  | wait t time =>
      intro hp
      exact hinv.notInserted (hinv.off_of_returned (Or.inl hp))
  | act c =>
      intro u hnext
      exact hinv.wakesNext hnext
  | _ => trivial

end Cond

/-- A wait that has returned has left the lists, and only tasks that wait
are woken. -/
theorem cond_clean (moves : List CondMove) (s : Cond) (hrun : run Cond.step .init moves = some s)
    (hun : Along Cond.step Undisturbed .init moves) :
    CondClean s ∧ Along Cond.step CondTidy .init moves := by
  have hinit : ∃ spot, Cond.init.Inv spot := ⟨_, Cond.inv_init⟩
  have hkeep : ∀ s m s', Undisturbed s m → Cond.step s m = some s' → (∃ spot, s.Inv spot) →
      ∃ spot, s'.Inv spot := fun _ _ _ hun hstep hinv => Cond.inv_step hun hstep hinv
  obtain ⟨spot, hinv⟩ := invariant_along hkeep hun hrun hinit
  refine ⟨hinv.clean, along_of_invariant hkeep (fun s m _ hinv => ?_) hun hinit⟩
  obtain ⟨spot, hinv⟩ := hinv
  exact hinv.tidy m

/-- A task that is submitted after its wait has been passed. -/
theorem cond_clean_after :
    ∃ s, run Cond.step .init [.submit 1, .task 1 .insert, .task 1 .get, .wait 1 none, .unlock 1,
        .sleep 1 0, .signal 0, .act 0, .task 1 .insert, .submit 1, .task 1 .get, .resume 1, .relock 1]
        = some s
      ∧ CondClean s ∧ s.phase 1 = .outside := by
  have heval : (run Cond.step .init [.submit 1, .task 1 .insert, .task 1 .get, .wait 1 none, .unlock 1,
      .sleep 1 0, .signal 0, .act 0, .task 1 .insert, .submit 1, .task 1 .get, .resume 1, .relock 1]).map
        (fun s => s.phase 1) = some .outside := by
    decide +kernel
  obtain ⟨s, hrun, hval⟩ := Option.map_eq_some_iff.mp heval
  exact ⟨s, hrun, (cond_clean _ s hrun (by decide +kernel)).1, hval⟩

/-- The task is submitted before it waits: it does not block in
`nosv_cond_wait`, and returns from it while it is in the list. -/
theorem submission_leaves_hook :
    ¬ ∀ moves s, run Cond.step .init moves = some s → CondClean s := by
  intro hclaim
  have heval : (run Cond.step .init [.submit 1, .task 1 .insert, .task 1 .get, .submit 1, .wait 1 none,
      .unlock 1, .sleep 1 0, .resume 1, .relock 1]).map (fun s => (s.phase 1, s.members .list))
        = some (.outside, [1]) := by
    decide +kernel
  obtain ⟨s, hrun, hval⟩ := Option.map_eq_some_iff.mp heval
  obtain ⟨hphase, hmembers⟩ := Prod.mk.injEq .. |>.mp hval
  refine (hclaim _ s hrun).2.2 1 (Or.inl hphase) (Or.inl ?_)
  rw [hmembers]
  exact List.mem_cons_self

end Nosv
