import Nosv.CondWait

/-!
# Absolute times of condition variables

`nosv_cond_timedwait` multiplies the seconds of its `struct timespec` into
nanoseconds in 64 bits, returns at once if the clock has passed that time,
and otherwise hands the difference to `nosv_waitfor`, which adds it to a
later reading of the clock.

A run is one of condition variables in which every timed wait comes with
its `struct timespec` and its reading of the clock; `call` remembers both.
-/

namespace Nosv

open Run

structure Timespec where
  tvSec : Int
  tvNsec : Int
  deriving DecidableEq

namespace Timespec

/-- What the documentation of `struct timespec` asks for. -/
def Valid (x : Timespec) : Prop :=
  0 ≤ x.tvSec ∧ x.tvSec < 9223372036854775808 ∧ 0 ≤ x.tvNsec ∧ x.tvNsec < 1000000000

instance (x : Timespec) : Decidable x.Valid := inferInstanceAs (Decidable (_ ∧ _))

/-- The time in nanoseconds, as a number. -/
def ns (x : Timespec) : Int := x.tvSec * 1000000000 + x.tvNsec

end Timespec

theorem Timespec.Valid.ns_nonneg {x : Timespec} (hx : x.Valid) : 0 ≤ x.ns := by
  obtain ⟨hsec, -, hnsec, -⟩ := hx
  unfold ns
  omega

/-- The value of a `uint64_t` after an assignment of `x`. -/
def toU64 (x : Int) : Nat := (x % 18446744073709551616).toNat

/-- `abstime->tv_nsec + abstime->tv_sec * 1000000000ULL` -/
def abstimeNs (x : Timespec) : Nat := u64 (toU64 x.tvNsec + u64 (toU64 x.tvSec * 1000000000))

theorem abstimeNs_eq {x : Timespec} (hx : x.Valid) :
    (abstimeNs x : Int) = x.ns % 18446744073709551616 := by
  obtain ⟨hsec, hsec', hnsec, hnsec'⟩ := hx
  unfold abstimeNs toU64 u64 Timespec.ns
  omega

structure TimedCond where
  cond : Cond
  /-- the time and the reading of the clock of the last timed wait -/
  call : TaskId → Timespec × Nat

inductive TimedMove where
  | timedwait (t : TaskId) (abstime : Timespec) (now : Nat)
  | other (m : CondMove)

namespace TimedCond

def init : TimedCond := ⟨.init, fun _ => (⟨0, 0⟩, 0)⟩

def step (s : TimedCond) : TimedMove → Option TimedCond
  | .timedwait t x now =>
      (s.cond.step (.wait t (some (now, abstimeNs x)))).map fun c =>
        ⟨c, Function.update s.call t (x, now)⟩
  | .other (.wait _ (some _)) => none
  | .other m => (s.cond.step m).map fun c => { s with cond := c }

/-- The values of a call fit their machine types. -/
def Typed : TimedMove → Prop
  | .timedwait _ x now => x.Valid ∧ now < 18446744073709551616
  | .other (.sleep _ startTime) => startTime < 18446744073709551616
  | _ => True

instance : ∀ m, Decidable (Typed m)
  | .timedwait .. => inferInstanceAs (Decidable (_ ∧ _))
  | .other m => by
      apply CondMove.casesOn (motive := fun m => Decidable (Typed (.other m))) m <;>
        intros <;> (dsimp only [Typed]; infer_instance)

/-- A timed wait whose time is not in the future changes nothing: the mutex
is not unlocked and the task is added to no list. Any other waits for the
time that is left, or for the longest there is. -/
def Exact (s : TimedCond) (m : TimedMove) : Prop :=
  ∀ s' ∈ s.step m,
    match m with
    | .timedwait t x now =>
        if x.ns ≤ now then s'.cond = s.cond
        else (∃ ns, s'.cond.phase t = .listed (some ns)) ∧ t ∈ s'.cond.members .listTimed
    | .other (.sleep t startTime) =>
        ∀ ns, s.cond.phase t = .unlocked (some ns) → ns ≠ 0
          ∧ (ns : Int) = min ((s.call t).1.ns - (s.call t).2) 18446744073709551615
          ∧ (s'.cond.sleeper t).task.deadline = min (startTime + ns) 18446744073709551615
    | _ => True

/-- The time of the call of task `t` has 64 bits in nanoseconds, and so has
the deadline of a wait from `startTime` on; or the wait is the longest there
is and starts at zero. -/
def DeadlineFits (s : TimedCond) (t : TaskId) (startTime : Nat) : CondPhase → Prop
  | .unlocked (some _) =>
      ((s.call t).1.ns < 18446744073709551616
        ∧ startTime + ((s.call t).1.ns - (s.call t).2) < 18446744073709551616)
      ∨ (18446744073709551616 ≤ (s.call t).1.ns
        ∧ (s.call t).1.ns % 18446744073709551616 = 18446744073709551615
        ∧ (s.call t).2 = 0 ∧ startTime = 0)
  | _ => True

instance (s : TimedCond) (t : TaskId) (startTime : Nat) : ∀ p, Decidable (s.DeadlineFits t startTime p)
  | .unlocked (some _) => inferInstanceAs (Decidable (_ ∨ _))
  | .unlocked none | .outside | .listed _ | .asleep _ | .leaving | .relocking => isTrue trivial

/-- The time is not the present one and is not taken for a time that has
passed, and the deadline fits. -/
def Converts (s : TimedCond) (m : TimedMove) : Prop :=
  (s.step m).isSome →
    match m with
    | .timedwait _ x now =>
        x.ns ≠ now ∧ (now < x.ns → now ≤ x.ns % 18446744073709551616)
    | .other (.sleep t startTime) => s.DeadlineFits t startTime (s.cond.phase t)
    | _ => True

instance (s : TimedCond) : ∀ m, Decidable (s.Converts m)
  | .timedwait .. => inferInstanceAs (Decidable (_ → _ ∧ _))
  | .other m => by
      apply CondMove.casesOn (motive := fun m => Decidable (s.Converts (.other m))) m <;>
        intros <;> (dsimp only [Converts]; infer_instance)

/-! ## Waits on their way to `nosv_waitfor` -/

end TimedCond

/-- The task has registered for `ns` nanoseconds and is not blocked yet. -/
def Cond.Timing (s : Cond) (t : TaskId) (ns : Nat) : Prop :=
  s.phase t = .listed (some ns) ∨ s.phase t = .unlocked (some ns)

namespace Cond

variable {s s' : Cond} {t u : TaskId} {ns : Nat}

theorem timing_setPhase {p : CondPhase} (h : (s.setPhase u p).Timing t ns) :
    (t = u ∧ (p = .listed (some ns) ∨ p = .unlocked (some ns))) ∨ (t ≠ u ∧ s.Timing t ns) := by
  unfold Timing setPhase at h
  by_cases htu : t = u
  · subst htu
    simp only [Function.update_self] at h
    exact .inl ⟨rfl, h⟩
  · simp only [Function.update_of_ne htu] at h
    exact .inr ⟨htu, h⟩

theorem pop_phase (s : Cond) (h : CondHook) : (s.pop h).2.phase = s.phase := by
  unfold pop
  split <;> rfl

theorem signal_phase (s : Cond) (c : Nat) : (s.signal c).phase = s.phase := by
  unfold signal
  simp only
  have hbegins : ∀ l, (s.begins c l).phase = s.phase := fun _ => rfl
  split
  · rename_i u s₁ hpop
    have hphase := pop_phase (s.begins c ((s.members .list ++ s.members .listTimed).take 1)) .list
    rw [hpop] at hphase
    exact hphase
  · rename_i s₁ hpop
    have hphase := pop_phase (s.begins c ((s.members .list ++ s.members .listTimed).take 1)) .list
    rw [hpop] at hphase
    have hphase' := pop_phase s₁ .listTimed
    split
    · rename_i u s₂ hpop'
      rw [hpop'] at hphase'
      exact hphase'.trans hphase
    · rename_i s₂ hpop'
      rw [hpop'] at hphase'
      exact hphase'.trans hphase

theorem act_phase {c : Nat} (h : s.act c = some s') : s'.phase = s.phase := by
  unfold act at h
  split at h
  · cases h
  · obtain ⟨k, -, rfl⟩ := Option.map_eq_some_iff.mp h
    rfl
  · simp only at h
    split at h
    · obtain rfl := Option.some.inj h
      rfl
    · obtain rfl := Option.some.inj h
      exact next_phase ..
  · obtain rfl := Option.some.inj h
    exact next_phase ..
  · have hphase := pop_phase s .listTimed
    split at h
    · rename_i u s₁ hpop
      rw [hpop] at hphase
      obtain rfl := Option.some.inj h
      exact hphase
    · rename_i s₁ hpop
      rw [hpop] at hphase
      obtain rfl := Option.some.inj h
      exact hphase
  · have hphase := pop_phase s (.nonTimed c)
    split at h
    · rename_i u s₁ hpop
      rw [hpop] at hphase
      obtain ⟨k, -, rfl⟩ := Option.map_eq_some_iff.mp h
      exact hphase
    · rename_i s₁ hpop
      rw [hpop] at hphase
      obtain rfl := Option.some.inj h
      exact hphase

/-- Only a timed wait makes a task register for a time. -/
theorem step_timing {m : CondMove} (hm : ∀ u x, m ≠ .wait u (some x)) (hstep : s.step m = some s')
    (h : s'.Timing t ns) : s.Timing t ns := by
  have hsame : s'.phase = s.phase → s.Timing t ns := by
    intro hphase
    unfold Timing at h ⊢
    rwa [hphase] at h
  cases m with
  | wait u time =>
      cases time with
      | some x => exact absurd rfl (hm u x)
      | none =>
          obtain ⟨-, heq⟩ := Option.ite_none_right_eq_some.mp hstep
          obtain rfl := Option.some.inj heq
          rcases timing_setPhase (p := .listed none) (u := u) h with ⟨-, hp | hp⟩ | ⟨-, hold⟩
          · cases hp
          · cases hp
          · exact hold
  | unlock u =>
      simp only [step] at hstep
      split at hstep
      · rename_i waitNs hp
        obtain rfl := Option.some.inj hstep
        rcases timing_setPhase h with ⟨rfl, hq | hq⟩ | ⟨-, hold⟩
        · cases hq
        · injection hq with hq
          exact .inl (by rw [hp, hq])
        · exact hold
      · cases hstep
  | sleep u startTime =>
      simp only [step] at hstep
      split at hstep
      · obtain ⟨k, -, rfl⟩ := Option.map_eq_some_iff.mp hstep
        rcases timing_setPhase h with ⟨-, hp | hp⟩ | ⟨-, hold⟩
        · cases hp
        · cases hp
        · exact hold
      · obtain ⟨k, -, rfl⟩ := Option.map_eq_some_iff.mp hstep
        rcases timing_setPhase h with ⟨-, hp | hp⟩ | ⟨-, hold⟩
        · cases hp
        · cases hp
        · exact hold
      · cases hstep
  | resume u =>
      obtain ⟨-, hstep⟩ := Option.ite_none_right_eq_some.mp hstep
      split at hstep
      · obtain rfl := Option.some.inj hstep
        rcases timing_setPhase h with ⟨-, hp | hp⟩ | ⟨-, hold⟩
        · cases hp
        · cases hp
        · exact hold
      · obtain rfl := Option.some.inj hstep
        rcases timing_setPhase h with ⟨-, hp | hp⟩ | ⟨-, hold⟩
        · cases hp
        · cases hp
        · exact hold
      · cases hstep
  | leave u =>
      obtain ⟨-, heq⟩ := Option.ite_none_right_eq_some.mp hstep
      obtain rfl := Option.some.inj heq
      unfold leave at h
      split at h <;>
      · rcases timing_setPhase h with ⟨-, hp | hp⟩ | ⟨-, hold⟩
        · cases hp
        · cases hp
        · exact hold
  | relock u =>
      obtain ⟨-, heq⟩ := Option.ite_none_right_eq_some.mp hstep
      obtain rfl := Option.some.inj heq
      rcases timing_setPhase h with ⟨-, hp | hp⟩ | ⟨-, hold⟩
      · cases hp
      · cases hp
      · exact hold
  | signal c =>
      obtain ⟨-, heq⟩ := Option.ite_none_right_eq_some.mp hstep
      obtain rfl := Option.some.inj heq
      exact hsame (signal_phase s c)
  | broadcast c =>
      obtain ⟨-, heq⟩ := Option.ite_none_right_eq_some.mp hstep
      obtain rfl := Option.some.inj heq
      exact hsame rfl
  | act c => exact hsame (act_phase hstep)
  | task u m =>
      obtain ⟨k, -, rfl⟩ := Option.map_eq_some_iff.mp hstep
      exact hsame rfl
  | submit u =>
      obtain ⟨k, -, rfl⟩ := Option.map_eq_some_iff.mp hstep
      exact hsame rfl
  | pause u =>
      obtain ⟨-, hstep⟩ := Option.ite_none_right_eq_some.mp hstep
      obtain ⟨k, -, rfl⟩ := Option.map_eq_some_iff.mp hstep
      exact hsame rfl
  | waitfor u startTime timeout =>
      obtain ⟨-, hstep⟩ := Option.ite_none_right_eq_some.mp hstep
      obtain ⟨k, -, rfl⟩ := Option.map_eq_some_iff.mp hstep
      exact hsame rfl

/-- The section of a timed wait. -/
theorem wait_timed {now abstime : Nat} (hstep : s.step (.wait t (some (now, abstime))) = some s') :
    s.phase t = .outside ∧ s' = if abstime < now then s
      else s.register t .listTimed (some (abstime - now)) := by
  obtain ⟨⟨-, hp, -⟩, heq⟩ := Option.ite_none_right_eq_some.mp hstep
  exact ⟨hp, (Option.some.inj heq).symm⟩

end Cond

namespace TimedCond

variable {s s' : TimedCond}

/-- A wait for `ns` nanoseconds is what is left of a time in the future, with
64 bits. -/
structure Left (x : Timespec) (now ns : Nat) : Prop where
  valid : x.Valid
  typed : now < 18446744073709551616
  future : now < x.ns
  taken : now ≤ abstimeNs x
  left : ns = abstimeNs x - now

/-- The invariant. -/
def Inv (s : TimedCond) : Prop :=
  ∀ t ns, s.cond.Timing t ns → Left (s.call t).1 (s.call t).2 ns

theorem inv_step {m : TimedMove} (hR : Typed m) (hC : s.Converts m) (hstep : s.step m = some s')
    (h : s.Inv) : s'.Inv := by
  have hC := hC (by rw [hstep]; rfl)
  cases m with
  | timedwait t x now =>
      obtain ⟨c, hc, rfl⟩ := Option.map_eq_some_iff.mp hstep
      obtain ⟨hout, rfl⟩ := Cond.wait_timed hc
      obtain ⟨hvalid, htyped⟩ := hR
      have heq := abstimeNs_eq hvalid
      intro u ns hu
      by_cases hut : u = t
      · subst hut
        simp only [Function.update_self]
        split at hu
        · -- the call has returned
          unfold Cond.Timing at hu
          rw [hout] at hu
          rcases hu with hu | hu <;> cases hu
        · rename_i hle
          rcases Cond.timing_setPhase hu with ⟨-, hp | hp⟩ | ⟨hne, -⟩
          · injection hp with hp
            injection hp with hp
            have hns := hvalid.ns_nonneg
            exact ⟨hvalid, htyped, by omega, by omega, hp.symm⟩
          · cases hp
          · exact absurd rfl hne
      · simp only [Function.update_of_ne hut]
        split at hu
        · exact h u ns hu
        · rcases Cond.timing_setPhase hu with ⟨heq, -⟩ | ⟨-, hold⟩
          · exact absurd heq hut
          · exact h u ns hold
  | other m =>
      have hother : (∀ u x, m ≠ .wait u (some x))
          ∧ ∃ c, s.cond.step m = some c ∧ s' = { s with cond := c } := by
        unfold step at hstep
        split at hstep
        · rename_i heq
          cases heq
        · cases hstep
        · rename_i m' hm heq
          obtain rfl := TimedMove.other.inj heq
          obtain ⟨c, hc, rfl⟩ := Option.map_eq_some_iff.mp hstep
          refine ⟨fun u x hux => ?_, c, hc, rfl⟩
          subst hux
          exact hm u x rfl
      obtain ⟨hm, c, hc, rfl⟩ := hother
      exact fun u ns hu => h u ns (Cond.step_timing hm hc hu)

/-! ## The conversion -/

/-- A wait that is to begin now, or to end at once. -/
theorem exact_timedwait {t : TaskId} {x : Timespec} {now : Nat} (hR : Typed (.timedwait t x now)) :
    s.Exact (.timedwait t x now) ↔ s.Converts (.timedwait t x now) := by
  obtain ⟨hvalid, htyped⟩ := hR
  have hpos := hvalid.ns_nonneg
  have heq := abstimeNs_eq hvalid
  unfold Exact Converts
  cases hstep : s.step (.timedwait t x now) with
  | none => exact ⟨fun _ hsome => (by cases hsome), fun _ s' hs' => (by cases hs')⟩
  | some s' =>
      obtain ⟨c, hc, rfl⟩ := Option.map_eq_some_iff.mp hstep
      obtain ⟨hout, rfl⟩ := Cond.wait_timed hc
      simp only [Option.mem_def, Option.some.injEq, forall_eq', Option.isSome_some, forall_const]
      by_cases hreturn : abstimeNs x < now
      · simp only [if_pos hreturn]
        split
        · exact ⟨fun _ => ⟨by omega, by omega⟩, fun _ => trivial⟩
        · rename_i hfuture
          refine ⟨fun h => ?_, fun h => by omega⟩
          obtain ⟨⟨ns, hns⟩, -⟩ := h
          rw [hout] at hns
          cases hns
      · simp only [if_neg hreturn]
        have hlisted : (s.cond.register t .listTimed (some (abstimeNs x - now))).phase t
            = .listed (some (abstimeNs x - now)) := by
          simp [Cond.register, Cond.setPhase]
        split
        · refine ⟨fun h => ?_, fun h => by omega⟩
          rw [h, hout] at hlisted
          cases hlisted
        · refine ⟨fun _ => by omega, fun _ => ⟨⟨_, hlisted⟩, ?_⟩⟩
          simp [Cond.register, Cond.setPhase, Cond.setMembers]

/-- What `nosv_waitfor` is given. -/
theorem exact_sleep {t : TaskId} {startTime : Nat} (hR : Typed (.other (.sleep t startTime)))
    (h : s.Inv) : s.Exact (.other (.sleep t startTime)) ↔ s.Converts (.other (.sleep t startTime)) := by
  unfold Exact Converts
  cases hstep : s.step (.other (.sleep t startTime)) with
  | none => exact ⟨fun _ hsome => (by cases hsome), fun _ s' hs' => (by cases hs')⟩
  | some s' =>
      simp only [Option.mem_def, Option.some.injEq, forall_eq', Option.isSome_some, forall_const]
      cases hp : s.cond.phase t with
      | unlocked waitNs =>
          cases waitNs with
          | none => exact ⟨fun _ => trivial, fun _ ns hns => (by cases hns)⟩
          | some ns =>
              obtain ⟨hvalid, htyped, hfuture, htaken, hleft⟩ := h t ns (.inr hp)
              have heq := abstimeNs_eq hvalid
              have hpos := hvalid.ns_nonneg
              have hstart : startTime < 18446744073709551616 := hR
              have hdeadline : (s'.cond.sleeper t).task.deadline = u64 (startTime + ns) := by
                obtain ⟨c, hc, rfl⟩ := Option.map_eq_some_iff.mp hstep
                simp only [Cond.step, hp] at hc
                obtain ⟨k, hk, rfl⟩ := Option.map_eq_some_iff.mp hc
                obtain ⟨-, hk⟩ := Option.ite_none_right_eq_some.mp hk
                obtain rfl := Option.some.inj hk
                simp only [Cond.setPhase, Cond.setSleeper, Function.update_self, Task.casDeadline]
                split <;> rfl
              have hiff : (ns ≠ 0
                  ∧ (ns : Int) = min ((s.call t).1.ns - (s.call t).2) 18446744073709551615
                  ∧ (s'.cond.sleeper t).task.deadline = min (startTime + ns) 18446744073709551615)
                  ↔ s.DeadlineFits t startTime (.unlocked (some ns)) := by
                rw [hdeadline]
                unfold u64 DeadlineFits
                omega
              rw [← hiff]
              refine ⟨fun hall => hall ns rfl, fun hexact ns' hns => ?_⟩
              injection hns with hns
              injection hns with hns
              rwa [← hns]
      | outside | listed | asleep | leaving | relocking =>
          exact ⟨fun _ => trivial, fun _ ns hns => (by cases hns)⟩

/-- Absolute times are converted exactly as long as they are not the present
one and neither they nor the deadlines need more than 64 bits. -/
theorem timeouts_exact (moves : List TimedMove)
    (hR : Along step (fun _ => Typed) init moves) :
    Along step Exact init moves ↔ Along step Converts init moves := by
  refine along_iff_of_invariant (I := Inv) (fun s m s' hR hC hstep h => inv_step hR hC hstep h)
    (fun s m hR h => ?_) hR ?_
  · cases m with
    | timedwait t x now => exact exact_timedwait hR
    | other m =>
        cases m with
        | sleep t startTime => exact exact_sleep hR h
        | _ => exact ⟨fun _ _ => trivial, fun _ _ _ => trivial⟩
  · intro t ns hp
    rcases hp with hp | hp <;> cases hp

/-- Task 1 waits from 5 seconds on until 7.000000003. -/
theorem timeouts_exact_future :
    Along step Exact init [.other (.submit 1), .other (.task 1 .insert), .other (.task 1 .get),
      .timedwait 1 ⟨7, 3⟩ 5000000000, .other (.unlock 1), .other (.sleep 1 5000000100)] := by
  refine (timeouts_exact _ (by decide +kernel)).mpr ?_
  decide +kernel

/-- The time is the present one: the task registers for zero nanoseconds. -/
theorem timeout_now_waits :
    ¬ ∀ moves, Along step (fun _ => Typed) init moves → Along step Exact init moves := by
  intro hall
  have halong := hall ([.other (.submit 1), .other (.task 1 .insert), .other (.task 1 .get),
    .timedwait 1 ⟨1, 0⟩ 1000000000, .other (.unlock 1)] ++ [.other (.sleep 1 1000000000)])
    (by decide +kernel)
  have heval : (run step init [.other (.submit 1), .other (.task 1 .insert), .other (.task 1 .get),
      .timedwait 1 ⟨1, 0⟩ 1000000000, .other (.unlock 1)]).map (fun s =>
        (s.cond.phase 1, (s.step (.other (.sleep 1 1000000000))).isSome))
      = some (.unlocked (some 0), true) := by
    decide +kernel
  obtain ⟨s, hrun, hval⟩ := Option.map_eq_some_iff.mp heval
  obtain ⟨hphase, hsome⟩ := Prod.mk.injEq .. |>.mp hval
  obtain ⟨s', hstep⟩ := Option.isSome_iff_exists.mp hsome
  exact (along_last hrun halong s' hstep 0 hphase).1 rfl

end TimedCond

end Nosv
