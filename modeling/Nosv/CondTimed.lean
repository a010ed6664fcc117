import Nosv.CondRuns

/-!
# Wake-ups that timed waits leave behind

A timed waiter leaves no wake-up behind (`cond_spent`) unless it is woken
after it has woken up by itself and before it has taken itself off its
list: nobody takes notice of that wake-up before the next wait of the task
(`late_wake_left_over`).

The place of a task says what its `deadline_state` may be (`Sleeper.Spent`).
A task that runs has none left, but for a waiter that has been woken
before it reached `nosv_waitfor` (`Cond.Early`).
-/

namespace Nosv

open Run Ring

namespace Sleeper

/-- What the place of a task says about its deadline; `early` tells whether
it may have been woken before it blocks. -/
def Spent (early : Prop) (k : Sleeper) : Prop :=
  match k.place with
  | .idle | .running | .ready =>
      k.task.deadline = 0 ∧ (k.state = .none ∨ (k.state = .ready ∧ early))
  | .submitting | .queued =>
      (k.task.deadline = 0 ∧ k.state = .none) ∨
        (k.task.deadline ≠ 0 ∧ (k.state = .pending ∨ k.state = .ready))
  | .inserting | .stored | .expiring => k.state = .waiting ∨ k.state = .ready
  | .lapsing | .lapsed | .purging => k.state = .ready

variable {k k' : Sleeper} {early early' : Prop}

theorem spent_init : Sleeper.init.Spent early := ⟨rfl, Or.inl rfl⟩

theorem Spent.mono (hspent : k.Spent early) (himp : early → early') : k.Spent early' := by
  unfold Spent at hspent ⊢
  cases hp : k.place <;> rw [hp] at hspent <;> try exact hspent
  all_goals exact ⟨hspent.1, hspent.2.imp_right fun h => ⟨h.1, himp h.2⟩⟩

/-- A task that runs and was not woken early. -/
theorem Spent.running (hspent : k.Spent early) (hp : k.place = .running) (hnot : ¬ early) :
    k.state = .none ∧ k.task.deadline = 0 := by
  rw [Spent, hp] at hspent
  exact ⟨hspent.2.resolve_right fun h => hnot h.2, hspent.1⟩

theorem Spent.step {m : SleepMove} (hspent : k.Spent early) (hstep : k.step m = some k') :
    k'.Spent early := by
  cases m <;> simp only [Sleeper.step] at hstep
  case insert =>
    obtain ⟨hp, hstep⟩ := Option.ite_none_right_eq_some.mp hstep
    rw [Spent, hp] at hspent
    split at hstep
    · rename_i hzero
      obtain rfl := Option.some.inj hstep
      exact ⟨hzero, Or.inl (hspent.resolve_right fun h => h.1 hzero).2⟩
    · rename_i hne
      have hst := (hspent.resolve_left fun h => hne h.1).2
      split at hstep
      · obtain rfl := Option.some.inj hstep
        exact Or.inl rfl
      · rename_i hpend
        obtain rfl := Option.some.inj hstep
        exact hst.resolve_left hpend
  case expire now =>
    obtain ⟨⟨hp, -⟩, heq⟩ := Option.ite_none_right_eq_some.mp hstep
    obtain rfl := Option.some.inj heq
    rw [Spent, hp] at hspent
    exact hspent
  case purge =>
    obtain ⟨⟨-, hready⟩, heq⟩ := Option.ite_none_right_eq_some.mp hstep
    obtain rfl := Option.some.inj heq
    exact hready
  case push =>
    obtain ⟨hp, heq⟩ := Option.ite_none_right_eq_some.mp hstep
    obtain rfl := Option.some.inj heq
    rw [Spent, hp] at hspent
    exact hspent
  case insertTree n =>
    obtain ⟨hp, heq⟩ := Option.ite_none_right_eq_some.mp hstep
    obtain rfl := Option.some.inj heq
    rw [Spent, hp] at hspent
    exact hspent
  case get =>
    obtain ⟨hp, heq⟩ := Option.ite_none_right_eq_some.mp hstep
    obtain rfl := Option.some.inj heq
    rw [Spent, hp] at hspent
    exact hspent
  all_goals
    obtain ⟨-, heq⟩ := Option.ite_none_right_eq_some.mp hstep
    obtain rfl := Option.some.inj heq
    exact ⟨rfl, Or.inl rfl⟩

/-- A submission leaves the deadline alone. -/
theorem submit_deadline (hsub : k.submit = some k') :
    k'.state = k.state ∧ k'.task.deadline = k.task.deadline
      ∧ (k'.place = k.place ∨ (k.place = .idle ∧ k'.place = .queued)) := by
  unfold Sleeper.submit at hsub
  split at hsub
  · rename_i task hsplit
    obtain rfl := Option.some.inj hsub
    obtain ⟨rfl, -⟩ := Prod.mk.inj hsplit
    exact ⟨rfl, rfl, Or.inl rfl⟩
  · rename_i task hsplit
    obtain ⟨hp, heq⟩ := Option.ite_none_right_eq_some.mp hsub
    obtain rfl := Option.some.inj heq
    obtain ⟨rfl, -⟩ := Prod.mk.inj hsplit
    exact ⟨rfl, rfl, Or.inr ⟨hp, rfl⟩⟩

/-- A blocked task is never one that was woken early. -/
theorem Spent.submit (hspent : k.Spent early) (hearly : k.place = .idle → ¬ early)
    (hsub : k.submit = some k') : k'.Spent early := by
  obtain ⟨hstate, hdl, hplace | ⟨hidle, hqueued⟩⟩ := submit_deadline hsub
  · rw [Spent, hplace, hstate, hdl]
    exact hspent
  · rw [Spent, hqueued, hstate, hdl]
    rw [Spent, hidle] at hspent
    exact Or.inl ⟨hspent.1, hspent.2.resolve_right fun h => hearly hidle h.2⟩

theorem Spent.pause (hspent : k.Spent early) (hpause : k.pause = some k') : k'.Spent early := by
  obtain ⟨hrun, heq⟩ := Option.ite_none_right_eq_some.mp hpause
  obtain rfl := Option.some.inj heq
  rw [Spent, hrun] at hspent
  unfold Spent
  dsimp only
  split <;> first | exact hspent | skip
  all_goals
    rename_i hp
    split at hp <;> cases hp

theorem Spent.waitfor {startTime timeout : Nat} (hspent : k.Spent early)
    (hne : u64 (startTime + timeout) ≠ 0) (hwait : k.waitfor startTime timeout = some k') :
    k'.Spent early' := by
  obtain ⟨hrun, -, hnone, hsome⟩ := waitfor_spec hwait
  rw [Spent, hrun] at hspent
  rcases hspent.2 with hst | ⟨hst, -⟩
  · obtain ⟨hplace, hpend, hdl⟩ := hnone hst
    rw [Spent, hplace, hdl]
    exact Or.inr ⟨hne, Or.inl hpend⟩
  · obtain ⟨hplace, hready⟩ := hsome (by simp [hst])
    rw [Spent, hplace]
    exact hready.trans hst

/-- A wake-up that comes early, or before the task has woken up by itself. -/
theorem Spent.exchange (hspent : k.Spent early) (himp : early → early')
    (hlate : k.state = .none → early' ∧ k.place = .running) : k.exchange.Spent early' := by
  unfold Spent at hspent ⊢
  have hplace : k.exchange.place = k.place := rfl
  have hready : k.exchange.state = .ready := rfl
  rw [hplace]
  cases hp : k.place <;> rw [hp] at hspent
  case idle | running | ready =>
    refine ⟨hspent.1, Or.inr ⟨hready, ?_⟩⟩
    exact hspent.2.elim (fun h => (hlate h).1) fun h => himp h.2
  case submitting | queued =>
    rcases hspent with ⟨-, hnone⟩ | ⟨hdl, -⟩
    · have := (hlate hnone).2
      rw [hp] at this
      cases this
    · exact Or.inr ⟨hdl, Or.inr hready⟩
  case inserting | stored | expiring => exact Or.inr hready
  all_goals exact hready

end Sleeper

namespace Cond

/-- The task is a timed waiter on its way to `nosv_waitfor` that has been
taken off its list. -/
def Early (s : Cond) (t : TaskId) : Prop :=
  (∃ ns, s.phase t = .listed (some ns) ∨ s.phase t = .unlocked (some ns))
    ∧ t ∉ s.members .listTimed

/-- No task has a wake-up left over. -/
def Spent (s : Cond) : Prop := ∀ t, (s.sleeper t).Spent (s.Early t)

variable {s s' : Cond} {spot : TaskId → Spot} {t u : TaskId} {c c' : Nat}

theorem Inv.running_of_early (hinv : s.Inv spot) (hearly : s.Early t) :
    (s.sleeper t).place = .running := by
  have hok := hinv.phase t
  obtain ⟨⟨ns, hp | hp⟩, -⟩ := hearly <;> rw [hp] at hok <;> exact hok.1

/-- The steps that change no descriptor. -/
theorem Spent.mono (hspent : s.Spent) (hsleeper : s'.sleeper = s.sleeper)
    (hearly : ∀ t, s.Early t → s'.Early t) : s'.Spent := by
  intro t
  rw [hsleeper]
  exact (hspent t).mono (hearly t)

/-- The steps that change only the descriptor of one task. -/
theorem Spent.setSleeper {k : Sleeper} (hspent : s.Spent) (hk : k.Spent (s.Early t)) :
    (s.setSleeper t k).Spent := by
  intro u
  by_cases hu : u = t
  · subst hu
    simp only [Cond.setSleeper, Function.update_self]
    exact hk
  · simp only [Cond.setSleeper, Function.update_of_ne hu]
    exact hspent u

/-- A task changes its phase, with a descriptor that fits the new one. -/
theorem Spent.setPhase {p : CondPhase} (hspent : s.Spent)
    (hk : (s.sleeper t).Spent ((s.setPhase t p).Early t)) : (s.setPhase t p).Spent := by
  intro u
  by_cases hu : u = t
  · subst hu
    exact hk
  · refine (hspent u).mono fun hearly => ?_
    simpa only [Early, Cond.setPhase, Function.update_of_ne hu] using hearly

/-- A task that was not woken early goes to another phase. -/
theorem Spent.setPhase_of_not {p : CondPhase} (hspent : s.Spent) (hnot : ¬ s.Early t) :
    (s.setPhase t p).Spent :=
  hspent.setPhase ((hspent t).mono fun hearly => absurd hearly hnot)

theorem not_early (hp : ∀ ns, s.phase t ≠ .listed (some ns)) (hp' : ∀ ns, s.phase t ≠ .unlocked (some ns)) :
    ¬ s.Early t := by
  rintro ⟨⟨ns, h | h⟩, -⟩
  · exact hp ns h
  · exact hp' ns h

/-- `list_pop_front` leaves the tasks alone. -/
theorem pop_frame (s : Cond) (h : CondHook) :
    (s.pop h).2.sleeper = s.sleeper ∧ (s.pop h).2.phase = s.phase
      ∧ ∀ h' t, t ∈ (s.pop h).2.members h' → t ∈ s.members h' := by
  unfold Cond.pop
  split
  · refine ⟨rfl, rfl, fun h' t hin => ?_⟩
    rename_i u links hpop
    have hin : t ∈ Function.update s.members h ((s.members h).erase u) h' := hin
    by_cases hh : h' = h
    · subst hh
      rw [Function.update_self] at hin
      exact List.mem_of_mem_erase hin
    · rwa [Function.update_of_ne hh] at hin
  · exact ⟨rfl, rfl, fun _ _ hin => hin⟩

theorem signal_frame (s : Cond) (c : Nat) :
    (s.signal c).sleeper = s.sleeper ∧ (s.signal c).phase = s.phase
      ∧ ∀ h' t, t ∈ (s.signal c).members h' → t ∈ s.members h' := by
  unfold Cond.signal
  dsimp only
  generalize hs₀ : s.begins c ((s.members .list ++ s.members .listTimed).take 1) = s₀
  have hframe₀ : s₀.sleeper = s.sleeper ∧ s₀.phase = s.phase ∧ s₀.members = s.members := by
    subst hs₀
    exact ⟨rfl, rfl, rfl⟩
  obtain ⟨hsl, hph, hmem⟩ := pop_frame s₀ .list
  rw [hframe₀.1, hframe₀.2.1, hframe₀.2.2] at *
  cases hpop : s₀.pop .list with
  | mk o s₁ =>
      rw [hpop] at hsl hph hmem
      cases o with
      | some u => exact ⟨hsl, hph, hmem⟩
      | none =>
          obtain ⟨hsl', hph', hmem'⟩ := pop_frame s₁ .listTimed
          dsimp only
          cases hpop' : s₁.pop .listTimed with
          | mk o' s₂ =>
              rw [hpop'] at hsl' hph' hmem'
              have hres : s₂.sleeper = s.sleeper ∧ s₂.phase = s.phase
                  ∧ ∀ h' t, t ∈ s₂.members h' → t ∈ s.members h' :=
                ⟨hsl'.trans hsl, hph'.trans hph, fun h' t hin => hmem h' t (hmem' h' t hin)⟩
              cases o' <;> exact hres

/-- What a step of a caller does to a descriptor. -/
theorem act_sleeper (hact : s.act c = some s') (t : TaskId) :
    s'.sleeper t = s.sleeper t ∨ (s.sleeper t).submit = some (s'.sleeper t)
      ∨ ∃ all, s.caller c = .waking t all ∧ s'.sleeper t = (s.sleeper t).exchange := by
  -- only one task is woken
  have hwakes : ∀ {s₁ : Cond} {u : TaskId} {k : Sleeper}, t ≠ u →
      (s₁.wakes c u k).sleeper t = s₁.sleeper t := fun htu => Function.update_of_ne htu ..
  unfold Cond.act at hact
  split at hact
  · cases hact
  · rename_i u hc
    obtain ⟨k, hk, rfl⟩ := Option.map_eq_some_iff.mp hact
    by_cases htu : t = u
    · subst htu
      refine Or.inr (Or.inl ?_)
      simp only [Cond.setCaller, Cond.wakes, Cond.setSleeper, Function.update_self]
      exact hk
    · exact Or.inl (hwakes htu)
  · rename_i u all hc
    have hsl : s'.sleeper = (s.wakes c u (s.sleeper u).exchange).sleeper := by
      dsimp only at hact
      split at hact <;> obtain rfl := Option.some.inj hact
      · rfl
      · exact next_sleeper ..
    rw [hsl]
    by_cases htu : t = u
    · subst htu
      exact Or.inr (Or.inr ⟨all, hc, Function.update_self ..⟩)
    · exact Or.inl (hwakes htu)
  · rename_i all hc
    obtain rfl := Option.some.inj hact
    exact Or.inl (by rw [next_sleeper])
  · obtain ⟨hsl, -, -⟩ := pop_frame s .listTimed
    split at hact <;> rename_i hpop <;> rw [hpop] at hsl <;> obtain rfl := Option.some.inj hact
    · exact Or.inl (congrFun hsl t)
    · exact Or.inl (congrFun hsl t)
  · obtain ⟨hsl, -, -⟩ := pop_frame s (.nonTimed c)
    split at hact <;> rename_i hpop <;> rw [hpop] at hsl
    · rename_i u s₁
      obtain ⟨k, hk, rfl⟩ := Option.map_eq_some_iff.mp hact
      by_cases htu : t = u
      · subst htu
        refine Or.inr (Or.inl ?_)
        simp only [Cond.wakes, Cond.setSleeper, Function.update_self]
        rw [← hk]
        exact congrArg Sleeper.submit (congrFun hsl t).symm
      · exact Or.inl ((hwakes htu).trans (congrFun hsl t))
    · obtain rfl := Option.some.inj hact
      exact Or.inl (congrFun hsl t)

theorem Early.of_subset (hearly : s.Early t) (hphase : s'.phase = s.phase)
    (hmembers : t ∈ s'.members .listTimed → t ∈ s.members .listTimed) : s'.Early t := by
  refine ⟨?_, fun hin => hearly.2 (hmembers hin)⟩
  rw [hphase]
  exact hearly.1

/-- A wake-up by a caller, in time. -/
theorem Spent.act (hspent : s.Spent) (hinv : s.Inv spot) (htimely : Timely s (.act c))
    (hact : s.act c = some s') : s'.Spent := by
  have hc : s.caller c ≠ .idle := by
    intro hc
    rw [Cond.act, hc] at hact
    cases hact
  obtain ⟨s₁, -, hact₁, -, hacts⟩ := hinv.act hc
  obtain rfl := Option.some.inj (hact₁.symm.trans hact)
  intro t
  have hmono : s.Early t → s₁.Early t := fun hearly =>
    hearly.of_subset hacts.phase (hacts.members _ t)
  rcases act_sleeper hact t with heq | hsub | ⟨all, hwaking, heq⟩
  · rw [heq]
    exact (hspent t).mono hmono
  · refine ((hspent t).submit (fun hidle hearly => ?_) hsub).mono hmono
    rw [hinv.running_of_early hearly] at hidle
    cases hidle
  · rw [heq]
    refine (hspent t).exchange hmono fun hnone => ?_
    have hspot : spot t = .waking c := by
      have := (hinv.hands c t true).mp (by rw [hwaking]; rfl)
      cases hsp : spot t <;> rw [hsp] at this <;> cases this
      rfl
    have hnotin : t ∉ s.members .listTimed := fun hin => by
      rw [hinv.lists.on, hspot] at hin
      cases hin
    have hok := hinv.phase t
    rw [hspot] at hok
    have hearly : s.Early t := by
      refine ⟨?_, hnotin⟩
      have hbefore := htimely t (by rw [hwaking]; rfl) hnone
      -- an untimed waiter would not be in the hands of this caller
      cases hp : s.phase t with
      | listed d | unlocked d =>
          cases d with
          | none =>
              rw [hp] at hok
              simp [CondPhase.Ok, Spot.Untimed] at hok
          | some ns => exact ⟨ns, by tauto⟩
      | outside | asleep _ | leaving | relocking =>
          rw [hp] at hbefore
          cases hbefore
    exact ⟨hmono hearly, hinv.running_of_early hearly⟩

/-- A task registers: it runs and was not woken. -/
theorem Spent.wait {time : Option (Nat × Nat)} (hspent : s.Spent) (hp : s.phase t = .outside) :
    (s.wait t time).Spent := by
  have hnot : ¬ s.Early t := not_early (by simp [hp]) (by simp [hp])
  -- another task keeps its phase, and is not added to a list
  have hreg : ∀ h waitNs, (s.register t h waitNs).Spent := by
    intro h waitNs
    refine hspent.mono rfl fun u hearly => ?_
    have hut : u ≠ t := by
      rintro rfl
      exact hnot hearly
    refine ⟨?_, fun hin => hearly.2 ?_⟩
    · simp only [Cond.register, Cond.setPhase, Function.update_of_ne hut]
      exact hearly.1
    · have hin : u ∈ Function.update s.members h (s.members h ++ [t]) .listTimed := hin
      by_cases hh : CondHook.listTimed = h
      · subst hh
        rw [Function.update_self, List.mem_append, List.mem_singleton] at hin
        exact hin.resolve_right hut
      · rwa [Function.update_of_ne hh] at hin
  rcases time with _ | ⟨now, abstime⟩
  · exact (hreg .list none).mono rfl fun _ hearly => hearly
  · unfold Cond.wait
    dsimp only
    split
    · exact hspent
    · exact hreg .listTimed _

theorem Spent.leave (hspent : s.Spent) (hp : s.phase t = .leaving) : (s.leave t).Spent := by
  have hnot : ¬ s.Early t := not_early (by simp [hp]) (by simp [hp])
  unfold Cond.leave
  split
  · refine Spent.setPhase_of_not ?_ ?_
    · refine hspent.mono rfl fun u hearly => hearly.of_subset rfl fun hin => ?_
      have hin : u ∈ Function.update s.members .listTimed ((s.members .listTimed).erase t) .listTimed := hin
      rw [Function.update_self] at hin
      exact List.mem_of_mem_erase hin
    · exact not_early (by simp [setMembers, hp]) (by simp [setMembers, hp])
  · exact hspent.setPhase_of_not hnot

theorem Spent.sleep {startTime : Nat} (hspent : s.Spent) (htimely : Timely s (.sleep t startTime))
    (hstep : s.step (.sleep t startTime) = some s') : s'.Spent := by
  simp only [step] at hstep
  split at hstep
  · rename_i hp
    obtain ⟨k, hk, rfl⟩ := Option.map_eq_some_iff.mp hstep
    refine Spent.setPhase_of_not (hspent.setSleeper ((hspent t).pause hk)) ?_
    exact not_early (by simp [Cond.setSleeper, hp]) (by simp [Cond.setSleeper, hp])
  · rename_i ns hp
    obtain ⟨k, hk, rfl⟩ := Option.map_eq_some_iff.mp hstep
    have hne : u64 (startTime + ns) ≠ 0 := htimely ns (by rw [hp]; rfl)
    refine Spent.setPhase (hspent.setSleeper ((hspent t).waitfor hne hk)) ?_
    simp only [Cond.setSleeper, Function.update_self]
    exact (hspent t).waitfor hne hk
  · cases hstep

theorem spent_step {m : CondMove} (hinv : s.Inv spot) (htimely : Timely s m)
    (hstep : s.step m = some s') (hspent : s.Spent) : s'.Spent := by
  cases m with
  | wait t time =>
      obtain ⟨⟨-, hp, -⟩, heq⟩ := Option.ite_none_right_eq_some.mp hstep
      obtain rfl := Option.some.inj heq
      exact hspent.wait hp
  | unlock t =>
      simp only [step] at hstep
      split at hstep
      · rename_i waitNs hp
        obtain rfl := Option.some.inj hstep
        refine hspent.setPhase ((hspent t).mono fun hearly => ⟨?_, hearly.2⟩)
        obtain ⟨ns, hp' | hp'⟩ := hearly.1
        · obtain rfl : waitNs = some ns := by
            have := hp.symm.trans hp'
            simpa using this
          exact ⟨ns, Or.inr (Function.update_self ..)⟩
        · rw [hp] at hp'
          cases hp'
      · cases hstep
  | sleep t startTime => exact hspent.sleep htimely hstep
  | resume t =>
      obtain ⟨-, hstep⟩ := Option.ite_none_right_eq_some.mp hstep
      split at hstep
      · rename_i hp
        obtain rfl := Option.some.inj hstep
        exact hspent.setPhase_of_not (not_early (by simp [hp]) (by simp [hp]))
      · rename_i ns hp
        obtain rfl := Option.some.inj hstep
        exact hspent.setPhase_of_not (not_early (by simp [hp]) (by simp [hp]))
      · cases hstep
  | leave t =>
      obtain ⟨⟨-, hp⟩, heq⟩ := Option.ite_none_right_eq_some.mp hstep
      obtain rfl := Option.some.inj heq
      exact hspent.leave hp
  | relock t =>
      obtain ⟨hp, heq⟩ := Option.ite_none_right_eq_some.mp hstep
      obtain rfl := Option.some.inj heq
      exact hspent.setPhase_of_not (not_early (by simp [hp]) (by simp [hp]))
  | signal c =>
      obtain ⟨-, heq⟩ := Option.ite_none_right_eq_some.mp hstep
      obtain rfl := Option.some.inj heq
      obtain ⟨hsl, hph, hmem⟩ := signal_frame s c
      exact hspent.mono hsl fun u hearly => hearly.of_subset hph (hmem _ u)
  | broadcast c =>
      obtain ⟨-, heq⟩ := Option.ite_none_right_eq_some.mp hstep
      obtain rfl := Option.some.inj heq
      refine hspent.mono rfl fun u hearly => hearly.of_subset rfl fun hin => ?_
      simpa [Cond.broadcast, Cond.begins] using hin
  | act c => exact hspent.act hinv htimely hstep
  | task t m =>
      obtain ⟨k, hk, rfl⟩ := Option.map_eq_some_iff.mp hstep
      exact hspent.setSleeper ((hspent t).step hk)
  | submit t =>
      obtain ⟨k, hk, rfl⟩ := Option.map_eq_some_iff.mp hstep
      refine hspent.setSleeper ((hspent t).submit (fun hidle hearly => ?_) hk)
      rw [hinv.running_of_early hearly] at hidle
      cases hidle
  | pause t =>
      obtain ⟨-, hstep⟩ := Option.ite_none_right_eq_some.mp hstep
      obtain ⟨k, hk, rfl⟩ := Option.map_eq_some_iff.mp hstep
      exact hspent.setSleeper ((hspent t).pause hk)
  | waitfor t startTime timeout =>
      obtain ⟨-, hstep⟩ := Option.ite_none_right_eq_some.mp hstep
      obtain ⟨k, hk, rfl⟩ := Option.map_eq_some_iff.mp hstep
      exact hspent.setSleeper ((hspent t).waitfor htimely hk)

theorem Spent.condSpent (hspent : s.Spent) (hinv : s.Inv spot) : CondSpent s := by
  intro t hp
  have hrun : (s.sleeper t).place = .running := by
    rcases hp with hp | ⟨-, hrun⟩
    · have hok := hinv.phase t
      rw [hp] at hok
      exact hok.1
    · exact hrun
  refine (hspent t).running hrun ?_
  rcases hp with hp | ⟨hp, -⟩ <;> exact not_early (by simp [hp]) (by simp [hp])

theorem Spent.notCutShort (hspent : s.Spent) (hinv : s.Inv spot) (m : CondMove) : NotCutShort s m := by
  cases m with
  | waitfor t startTime timeout =>
      intro hp hrun
      have hnone := ((hspent t).running hrun (not_early (by simp [hp]) (by simp [hp]))).1
      simp only [Sleeper.state] at hnone
      simp [Task.casDeadline, hnone]
  | sleep t startTime =>
      intro ns hp hin
      have hok := hinv.phase t
      rw [hp] at hok
      have hnone := ((hspent t).running hok.1 fun hearly => hearly.2 hin).1
      simp only [Sleeper.state] at hnone
      simp [Task.casDeadline, hnone]
  | _ => trivial

end Cond

/-- A timed wait that returns leaves no wake-up behind, so that no later
wait is cut short. -/
theorem cond_spent (moves : List CondMove) (s : Cond) (hrun : run Cond.step .init moves = some s)
    (hun : Along Cond.step Undisturbed .init moves) (htimely : Along Cond.step Timely .init moves) :
    CondSpent s ∧ Along Cond.step NotCutShort .init moves := by
  have hinit : ∃ spot, Cond.init.Inv spot ∧ Cond.init.Spent :=
    ⟨_, Cond.inv_init, fun _ => Sleeper.spent_init⟩
  have hkeep : ∀ s m s', (Undisturbed s m ∧ Timely s m) → Cond.step s m = some s' →
      (∃ spot, s.Inv spot ∧ s.Spent) → ∃ spot, s'.Inv spot ∧ s'.Spent := by
    rintro s m s' ⟨hun, htimely⟩ hstep ⟨spot, hinv, hspent⟩
    obtain ⟨spot', hinv'⟩ := Cond.inv_step hun hstep ⟨spot, hinv⟩
    exact ⟨spot', hinv', Cond.spent_step hinv htimely hstep hspent⟩
  obtain ⟨spot, hinv, hspent⟩ := invariant_along hkeep (hun.and htimely) hrun hinit
  refine ⟨hspent.condSpent hinv, along_of_invariant hkeep (fun s m _ hboth => ?_) (hun.and htimely) hinit⟩
  obtain ⟨spot, hinv, hspent⟩ := hboth
  exact hspent.notCutShort hinv m

/-- One wait that ends by itself, and one that a signal ends. -/
theorem cond_spent_twice :
    ∃ s, run Cond.step .init [.submit 1, .task 1 .insert, .task 1 .get, .wait 1 (some (5, 9)), .unlock 1,
        .sleep 1 6, .task 1 .push, .task 1 .insert, .task 1 (.insertTree 0), .task 1 (.expire 11),
        .task 1 .expireStore, .task 1 .get, .resume 1, .leave 1, .relock 1, .wait 1 (some (12, 19)),
        .signal 0, .act 0, .unlock 1, .sleep 1 13, .task 1 .storeNone, .resume 1, .leave 1] = some s
      ∧ CondSpent s ∧ s.phase 1 = .relocking := by
  have heval : (run Cond.step .init [.submit 1, .task 1 .insert, .task 1 .get, .wait 1 (some (5, 9)),
      .unlock 1, .sleep 1 6, .task 1 .push, .task 1 .insert, .task 1 (.insertTree 0),
      .task 1 (.expire 11), .task 1 .expireStore, .task 1 .get, .resume 1, .leave 1, .relock 1,
      .wait 1 (some (12, 19)), .signal 0, .act 0, .unlock 1, .sleep 1 13, .task 1 .storeNone,
      .resume 1, .leave 1]).map (fun s => s.phase 1) = some .relocking := by
    decide +kernel
  obtain ⟨s, hrun, hval⟩ := Option.map_eq_some_iff.mp heval
  exact ⟨s, hrun, (cond_spent _ s hrun (by decide +kernel) (by decide +kernel)).1, hval⟩

/-- The deadline expires, and the signal finds the task in the list before
it has taken itself off: the wake-up is for nobody. -/
theorem late_wake_left_over :
    ¬ ∀ moves s, run Cond.step .init moves = some s → CondSpent s := by
  intro hclaim
  have heval : (run Cond.step .init [.submit 1, .task 1 .insert, .task 1 .get, .wait 1 (some (5, 9)),
      .unlock 1, .sleep 1 6, .task 1 .push, .task 1 .insert, .task 1 (.insertTree 0),
      .task 1 (.expire 11), .task 1 .expireStore, .signal 0, .act 0, .task 1 .get, .resume 1,
      .leave 1]).map (fun s => (s.phase 1, (s.sleeper 1).state)) = some (.relocking, .ready) := by
    decide +kernel
  obtain ⟨s, hrun, hval⟩ := Option.map_eq_some_iff.mp heval
  obtain ⟨hphase, hstate⟩ := Prod.mk.injEq .. |>.mp hval
  have := (hclaim _ s hrun 1 (Or.inl hphase)).1
  rw [hstate] at this
  cases this

end Nosv
