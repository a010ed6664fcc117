import Mathlib.Order.Interval.Finset.Nat
import Nosv.DtLockAnswers
import Nosv.Governor

/-!
# Nobody is stranded

The sets of the governor are the requests that have been moved and not
answered, and those whose last answer was to sleep. Who serves the others
takes care of them until it leaves, and then there is somebody who comes:
a thread with a ticket that has not been moved, or one that has been told to
retry.
-/

namespace Nosv

open Bitset Run

namespace Governor

open DtLock

variable {ι α : Type} [DecidableEq ι] {s s' : Servers ι α} {t u : ι} {cpus : Nat}

/-! ## The sets -/

/-- The sets say how far the requests have come. -/
structure Masks (cpus : Nat) (g : Governor) (progress : Nat → Progress) : Prop where
  waitersWords : cpus ≤ 64 * g.waiters.length
  sleepersWords : cpus ≤ 64 * g.sleepers.length
  waiters : ∀ cpu, test g.waiters cpu = true ↔ progress cpu = .moved
  sleepers : ∀ cpu, test g.sleepers cpu = true ↔ progress cpu = .asleep

/-- A request that the governor has to see to -/
def Pending (s : Servers ι α) (cpu : Nat) : Prop :=
  s.lock.progress cpu = .moved ∨ s.lock.progress cpu = .asleep

theorem test_zero (words n : Nat) : test (zero words) n = false := by
  refine eq_false_of_ne_true fun hn => ?_
  have hmem := mem_toFinset.mpr hn
  rw [toFinset_zero] at hmem
  exact Finset.notMem_empty n hmem

theorem masks_init (cpus spins : Nat) : Masks cpus (init cpus spins) fun _ => .idle := by
  have hwords : cpus ≤ 64 * ((cpus + 63) / 64) := by omega
  refine ⟨?_, ?_, fun cpu => ?_, fun cpu => ?_⟩
  · show cpus ≤ 64 * (zero ((cpus + 63) / 64)).length
    rw [zero, List.length_replicate]
    exact hwords
  · show cpus ≤ 64 * (zero ((cpus + 63) / 64)).length
    rw [zero, List.length_replicate]
    exact hwords
  · show test (zero _) cpu = true ↔ _
    rw [test_zero]
    decide
  · show test (zero _) cpu = true ↔ _
    rw [test_zero]
    decide

theorem ffsFrom_some {set : List Word} {start n : Nat} (h : ffsFrom set start = some n) : test set n = true := by
  unfold ffsFrom at h
  rcases ffsAt_spec set start with ⟨hzero, -⟩ | ⟨m, hm, -, hres, -⟩
  · rw [hzero] at h
    nomatch h
  · rw [hres] at h
    obtain rfl := Option.some.inj h
    exact mem_toFinset.mp hm

theorem ffsFrom_none {set : List Word} (h : ffsFrom set 0 = none) (n : Nat) : test set n = false := by
  unfold ffsFrom at h
  rcases ffsAt_spec set 0 with ⟨-, hall⟩ | ⟨m, -, -, hres, -⟩
  · exact eq_false_of_ne_true fun hn => Nat.not_lt_zero n (hall n (mem_toFinset.mpr hn))
  · rw [hres] at h
    nomatch h

section Updates

variable {g : Governor} {progress : Nat → Progress} {cpu : Nat}

theorem Masks.moved_served (h : Masks cpus g progress) (hmoved : progress cpu = .moved) :
    g.served cpu = ({ g with
      waiters := clear g.waiters cpu
      cpuSpinCounter := Function.update g.cpuSpinCounter cpu 0 }, false) := by
  have hin : isset g.waiters cpu = true := by rw [isset_eq, (h.waiters cpu).mpr hmoved]
  rw [Governor.served, if_pos hin]

theorem Masks.asleep_served (h : Masks cpus g progress) (hasleep : progress cpu = .asleep) :
    g.served cpu = ({ g with sleepers := clear g.sleepers cpu }, true) := by
  have hnot : ¬ isset g.waiters cpu = true := by
    rw [isset_eq, h.waiters cpu, hasleep]
    decide
  rw [Governor.served, if_neg hnot]

/-- A request has been answered for good, and leaves its set. -/
theorem Masks.answer (h : Masks cpus g progress) (hpending : progress cpu = .moved ∨ progress cpu = .asleep)
    {p : Progress} (hp : p = .served ∨ p = .woken) :
    Masks cpus (g.served cpu).1 (Function.update progress cpu p) := by
  have hmoved : p ≠ .moved := by rcases hp with rfl | rfl <;> decide
  have hasleep : p ≠ .asleep := by rcases hp with rfl | rfl <;> decide
  rcases hpending with hw | hw
  · rw [h.moved_served hw]
    refine ⟨by rw [length_clear]; exact h.waitersWords, h.sleepersWords, fun c => ?_, fun c => ?_⟩
    · rw [test_clear, Function.update_apply]
      by_cases hc : c = cpu
      · simp [hc, hmoved]
      · simp [hc, h.waiters c]
    · rw [Function.update_apply]
      split
      · next hc => simp [hc, hasleep, h.sleepers cpu, hw]
      · exact h.sleepers c
  · rw [h.asleep_served hw]
    refine ⟨h.waitersWords, by rw [length_clear]; exact h.sleepersWords, fun c => ?_, fun c => ?_⟩
    · rw [Function.update_apply]
      split
      · next hc => simp [hc, hmoved, h.waiters cpu, hw]
      · exact h.waiters c
    · rw [test_clear, Function.update_apply]
      by_cases hc : c = cpu
      · simp [hc, hasleep]
      · simp [hc, h.sleepers c]

/-- A request goes from the waiters to the sleepers. -/
theorem Masks.sleep {α : Type} (h : Masks cpus g progress) (hmoved : progress cpu = .moved) (hcpu : cpu < cpus) :
    Masks cpus (g.sleepCpu (α := α) cpu).1 (Function.update progress cpu .asleep) := by
  have hwords : cpu < 64 * g.sleepers.length := Nat.lt_of_lt_of_le hcpu h.sleepersWords
  unfold sleepCpu
  rw [h.moved_served hmoved]
  refine ⟨by rw [length_clear]; exact h.waitersWords, by rw [length_set]; exact h.sleepersWords, fun c => ?_,
    fun c => ?_⟩
  · rw [test_clear, Function.update_apply]
    by_cases hc : c = cpu
    · simp [hc]
    · simp [hc, h.waiters c]
  · rw [test_set hwords, Function.update_apply]
    by_cases hc : c = cpu
    · simp [hc]
    · simp [hc, h.sleepers c]

/-- A request is moved to the second queue. -/
theorem Masks.move (h : Masks cpus g progress) (hidle : progress cpu = .idle) (hcpu : cpu < cpus) :
    Masks cpus { g with waiters := set g.waiters cpu } (Function.update progress cpu .moved) := by
  have hwords : cpu < 64 * g.waiters.length := Nat.lt_of_lt_of_le hcpu h.waitersWords
  refine ⟨by rw [length_set]; exact h.waitersWords, h.sleepersWords, fun c => ?_, fun c => ?_⟩
  · rw [test_set hwords, Function.update_apply]
    by_cases hc : c = cpu
    · simp [hc]
    · simp [hc, h.waiters c]
  · rw [Function.update_apply]
    split
    · next hc => simp [hc, h.sleepers cpu, hidle]
    · exact h.sleepers c

/-- What is not pending may change. -/
theorem Masks.congr (h : Masks cpus g progress) {progress' : Nat → Progress}
    (hsame : ∀ cpu, progress' cpu = progress cpu
      ∨ (progress cpu ≠ .moved ∧ progress cpu ≠ .asleep) ∧ progress' cpu ≠ .moved ∧ progress' cpu ≠ .asleep) :
    Masks cpus g progress' := by
  refine ⟨h.waitersWords, h.sleepersWords, fun cpu => ?_, fun cpu => ?_⟩
  · rcases hsame cpu with heq | ⟨⟨hno, -⟩, hno', -⟩
    · rw [heq]
      exact h.waiters cpu
    · exact (h.waiters cpu).trans (iff_of_false hno hno')
  · rcases hsame cpu with heq | ⟨⟨-, hno⟩, -, hno'⟩
    · rw [heq]
      exact h.sleepers cpu
    · exact (h.sleepers cpu).trans (iff_of_false hno hno')

end Updates

/-! ## Who comes -/

/-- The program counter of a loop over a set is in the set. -/
def Pc.Ok (g : Governor) : Pc → Prop
  | .shutdownWaiters _ (some cpu) | .serveWaiters _ _ (some cpu) | .policy _ _ (some cpu) =>
      test g.waiters cpu = true
  | .shutdownSleepers _ (some cpu) | .serveSleepers _ _ (some cpu) => test g.sleepers cpu = true
  | .ready _ | .shutdownWaiters _ none | .shutdownSleepers _ none | .update _ _ | .serveWaiters _ _ none
  | .serveSleepers _ _ none | .policy _ _ none | .self _ | .leaving | .waking | .unlocking => True

/-- The holder of the lock will still see to those that are pending. -/
def Pc.Responsible : Pc → Prop
  | .ready (some _) | .shutdownWaiters (some _) _ | .shutdownSleepers (some _) _ | .update _ _
  | .serveWaiters _ _ _ | .serveSleepers _ _ _ | .policy _ _ _ | .self _ | .leaving | .waking => True
  | .ready none | .shutdownWaiters none _ | .shutdownSleepers none _ | .unlocking => False

/-- The answer of the request of a CPU is to retry. -/
def Told (s : Servers ι α) (cpu : Nat) : Prop :=
  (s.lock.progress cpu = .served ∨ s.lock.progress cpu = .woken) ∧ (s.lock.lock.items cpu).item = .retry

/-- The thread has been told to retry, and has not taken its next ticket. -/
def Retried (s : Servers ι α) (t : ι) : Prop :=
  match s.lock.threads t with
  | .entered _ | .sampled _ _ => s.retried t = true
  | .spinning r _ _ | .passed r _ _ | .polling r _ | .sleeping r | .answered r => Told s r.cpu
  | _ => False

/-- The thread has a ticket for `scheduler_get` that has not been moved, and
does not hold the lock yet. -/
def Comes (s : Servers ι α) (t : ι) : Prop :=
  ∃ k r, (s.lock.threads t).ticket = some k ∧ (s.lock.threads t).inside = some r
    ∧ (k = s.lock.granted ∨ s.lock.lock.next ≤ k)

/-- Somebody takes care of those that are pending. -/
def Cared (s : Servers ι α) : Prop :=
  (∃ t k seen, s.lock.threads t = .holding k seen ∧ (s.pcs t).Responsible) ∨ ∃ t, Comes s t ∨ Retried s t

structure Inv (cpus : Nat) (s : Servers ι α) : Prop where
  tickets : Tickets s.lock
  answers : Answers s.lock
  size : s.lock.lock.size = cpus * 2
  masks : Masks cpus s.governor s.lock.progress
  cpus_lt : ∀ t r, (s.lock.threads t).inside = some r → r.cpu < cpus
  locking : ∀ t k, s.lock.threads t ≠ .locking k
  pcs : ∀ t k seen, s.lock.threads t = .holding k seen → (s.pcs t).Ok s.governor
  blocking : ∀ t r, (s.lock.threads t).inside = some r → s.lock.progress r.cpu = .asleep → r.blocking = true
  cared : ∀ cpu, Pending s cpu → Cared s

omit [DecidableEq ι] in
theorem inv_init (hpos : 0 < cpus) (spins : Nat) : Inv cpus (initServers cpus spins : Servers ι α) where
  tickets := tickets_init (by omega) _
  answers := answers_init fun _ => rfl
  size := rfl
  masks := masks_init cpus spins
  cpus_lt t r h := by cases h
  locking t k h := by cases h
  pcs t k seen h := by cases h
  blocking t r h := by cases h
  cared cpu h := by
    rcases h with h | h
    · cases h
    · cases h

omit [DecidableEq ι] in
theorem Inv.pending_lt (h : Inv cpus s) {cpu : Nat} (hp : Pending s cpu) : cpu < cpus := by
  have hbusy : s.lock.progress cpu ≠ .idle := by
    rcases hp with hp | hp <;> rw [hp] <;> decide
  obtain ⟨t, r, hr, rfl⟩ := h.answers.client cpu hbusy
  exact h.cpus_lt t r hr

omit [DecidableEq ι] in
/-- There is a slot for the ticket of a thread that is about to take one: the
tickets that wait are those of other CPUs. -/
theorem Inv.room (h : Inv cpus s) {r : Request} {prev : BitVec 31} (ht : s.lock.threads t = .sampled r prev) :
    s.lock.lock.head + 1 < s.lock.lock.next + s.lock.lock.size := by
  have hcpu : r.cpu < cpus := h.cpus_lt t r (by rw [ht]; rfl)
  -- who has a ticket that waits
  have hwaits : ∀ k, k ∈ Finset.Ico s.lock.lock.next s.lock.lock.head →
      ∃ u r', (s.lock.threads u).ticket = some k ∧ (s.lock.threads u).inside = some r' := by
    intro k hk
    obtain ⟨hle, hlt⟩ := Finset.mem_Ico.mp hk
    obtain ⟨u, hu⟩ := h.tickets.owned k hlt (Or.inr hle)
    cases hp : s.lock.threads u with
    | ticketed r' _ _ | spinning r' _ _ | passed r' _ _ =>
        rw [hp] at hu
        exact ⟨u, r', by rw [hp]; exact hu, by rw [hp]; rfl⟩
    | locking m => exact absurd hp (h.locking u m)
    | holding m seen =>
        have hstands := h.tickets.stands u
        rw [hp] at hu hstands
        obtain rfl := Option.some.inj hu
        have hlt' := h.tickets.granted_lt
        rw [← show m = s.lock.granted from hstands] at hlt'
        omega
    | out | tried m | turn m | entered r' | sampled r' p | polling r' p | sleeping r' | answered r'
    | served r' item count =>
        rw [hp] at hu
        nomatch hu
  have : Nonempty ι := ⟨t⟩
  have : Nonempty Request := ⟨r⟩
  choose! who req hticket hinside using hwaits
  have hcard : (Finset.Ico s.lock.lock.next s.lock.lock.head).card ≤ ((Finset.range cpus).erase r.cpu).card := by
    refine Finset.card_le_card_of_injOn (fun k => (req k).cpu) (fun k hk => ?_) fun k hk m hm heq => ?_
    · refine Finset.mem_coe.mpr (Finset.mem_erase.mpr ⟨fun heq => ?_, Finset.mem_range.mpr ?_⟩)
      · have hwho := h.tickets.cpus (who k) t (req k) r (hinside k hk) (by rw [ht]; rfl) heq
        have hnone := hticket k hk
        rw [hwho, ht] at hnone
        nomatch hnone
      · exact h.cpus_lt (who k) (req k) (hinside k hk)
    · have hwho := h.tickets.cpus (who k) (who m) (req k) (req m) (hinside k hk) (hinside m hm) heq
      have hk' := hticket k hk
      rw [hwho, hticket m hm] at hk'
      exact (Option.some.inj hk').symm
  rw [Nat.card_Ico, Finset.card_erase_of_mem (Finset.mem_range.mpr hcpu), Finset.card_range] at hcard
  rw [h.size]
  omega

/-! ## Steps of the clients -/

/-- What a step of thread `t` outside the lock leaves as it is -/
structure Outside (s s' : State ι α) (t : ι) (p p' : Phase α) (m : Move α) : Prop where
  threads : s'.threads = Function.update s.threads t p'
  granted : s'.granted = s.granted
  next : s'.lock.next = s.lock.next
  size : s'.lock.size = s.lock.size
  item : ∀ cpu, (s'.lock.items cpu).item = (s.lock.items cpu).item
  progress : ∀ cpu, s'.progress cpu = s.progress cpu
    ∨ s'.progress cpu = .idle ∧ ∃ r, p = .answered r ∧ r.cpu = cpu
  inside : ∀ r, p'.inside = some r → p.inside = some r ∨ p' = .entered r ∧ m = .enter r
  locking : ∀ k, p' ≠ .locking k

theorem item_setFlags (l : Lock α) (r : Request) (cpu : Nat) :
    ((l.setFlags r).items cpu).item = (l.items cpu).item := by
  show (Function.update l.items r.cpu { l.items r.cpu with flags := r.flags } cpu).item = _
  rw [Function.update_apply]
  split
  · next hc => rw [hc]
  · rfl

/-- A step to phase `p'` that changes neither answers nor their progress -/
theorem Outside.goto {l l' : State ι α} {p p' : Phase α} {m : Move α}
    (hthreads : l'.threads = Function.update l.threads t p') (hgranted : l'.granted = l.granted)
    (hnext : l'.lock.next = l.lock.next) (hsize : l'.lock.size = l.lock.size)
    (hitem : ∀ cpu, (l'.lock.items cpu).item = (l.lock.items cpu).item) (hprogress : l'.progress = l.progress)
    (hinside : p'.inside = p.inside ∨ p'.inside = none) (hlocking : ∀ k, p' ≠ .locking k) :
    Outside l l' t p p' m := by
  refine ⟨hthreads, hgranted, hnext, hsize, hitem, fun cpu => Or.inl (by rw [hprogress]), fun r hr => ?_, hlocking⟩
  rcases hinside with heq | hnone
  · exact Or.inl (heq ▸ hr)
  · rw [hnone] at hr
    nomatch hr

theorem outside_of_clientStep {l l' : State ι α} {p : Phase α} {m : Move α} (hm : m ≠ .lock)
    (hstep : DtLock.clientStep l t p m = some l') : ∃ p', Outside l l' t p p' m := by
  cases p with
  | out =>
      cases m with
      | tryLock =>
          obtain rfl := Option.some.inj hstep
          exact ⟨_, Outside.goto rfl rfl rfl rfl (fun _ => rfl) rfl (Or.inl rfl) (fun _ h => by cases h)⟩
      | lock => exact absurd rfl hm
      | enter r =>
          obtain ⟨-, heq⟩ := Option.ite_none_right_eq_some.mp hstep
          obtain rfl := Option.some.inj heq
          refine ⟨.entered r, rfl, rfl, rfl, rfl, fun _ => rfl, fun _ => Or.inl rfl, fun r' hr => Or.inr ?_, (fun _ h => by cases h)⟩
          obtain rfl := Option.some.inj hr
          exact ⟨rfl, rfl⟩
      | _ => cases hstep
  | tried k =>
      cases m with
      | tryTicket =>
          simp only [DtLock.clientStep] at hstep
          split at hstep
          · obtain rfl := Option.some.inj hstep
            exact ⟨_, Outside.goto rfl rfl rfl rfl (fun _ => rfl) rfl (Or.inl rfl) (fun _ h => by cases h)⟩
          · obtain rfl := Option.some.inj hstep
            exact ⟨_, Outside.goto rfl rfl rfl rfl (fun _ => rfl) rfl (Or.inl rfl) (fun _ h => by cases h)⟩
      | _ => cases hstep
  | turn k =>
      cases m with
      | tryHead fails =>
          simp only [DtLock.clientStep] at hstep
          split at hstep
          · obtain rfl := Option.some.inj hstep
            exact ⟨_, Outside.goto rfl rfl rfl rfl (fun _ => rfl) rfl (Or.inl rfl) (fun _ h => by cases h)⟩
          · obtain rfl := Option.some.inj hstep
            exact ⟨_, Outside.goto rfl rfl rfl rfl (fun _ => rfl) rfl (Or.inl rfl) (fun _ h => by cases h)⟩
      | _ => cases hstep
  | locking k =>
      cases m with
      | lockPass =>
          obtain ⟨-, heq⟩ := Option.ite_none_right_eq_some.mp hstep
          obtain rfl := Option.some.inj heq
          exact ⟨_, Outside.goto rfl rfl rfl rfl (fun _ => rfl) rfl (Or.inl rfl) (fun _ h => by cases h)⟩
      | _ => cases hstep
  | entered r =>
      cases m with
      | sample =>
          obtain rfl := Option.some.inj hstep
          exact ⟨_, Outside.goto rfl rfl rfl rfl (fun _ => rfl) rfl (Or.inl rfl) (fun _ h => by cases h)⟩
      | _ => cases hstep
  | sampled r prev =>
      cases m with
      | take =>
          obtain rfl := Option.some.inj hstep
          exact ⟨_, Outside.goto rfl rfl rfl rfl (fun _ => rfl) rfl (Or.inl rfl) (fun _ h => by cases h)⟩
      | _ => cases hstep
  | ticketed r prev k =>
      cases m with
      | register =>
          obtain rfl := Option.some.inj hstep
          exact ⟨_, Outside.goto rfl rfl rfl rfl (fun _ => rfl) rfl (Or.inl rfl) (fun _ h => by cases h)⟩
      | _ => cases hstep
  | spinning r prev k =>
      cases m with
      | pass =>
          obtain ⟨-, heq⟩ := Option.ite_none_left_eq_some.mp hstep
          obtain rfl := Option.some.inj heq
          exact ⟨_, Outside.goto rfl rfl rfl rfl (fun _ => rfl) rfl (Or.inl rfl) (fun _ h => by cases h)⟩
      | _ => cases hstep
  | passed r prev k =>
      cases m with
      | acquire =>
          simp only [DtLock.clientStep] at hstep
          split at hstep
          · obtain rfl := Option.some.inj hstep
            exact ⟨_, Outside.goto rfl rfl rfl rfl (item_setFlags _ r) rfl (Or.inr rfl) (fun _ h => by cases h)⟩
          · obtain rfl := Option.some.inj hstep
            exact ⟨_, Outside.goto rfl rfl rfl rfl (fun _ => rfl) rfl (Or.inl rfl) (fun _ h => by cases h)⟩
      | _ => cases hstep
  | polling r prev =>
      cases m with
      | poll =>
          simp only [DtLock.clientStep] at hstep
          split at hstep
          · cases hstep
          · split at hstep
            · obtain rfl := Option.some.inj hstep
              exact ⟨_, Outside.goto rfl rfl rfl rfl (fun _ => rfl) rfl (Or.inl rfl) (fun _ h => by cases h)⟩
            · obtain rfl := Option.some.inj hstep
              exact ⟨_, Outside.goto rfl rfl rfl rfl (fun _ => rfl) rfl (Or.inl rfl) (fun _ h => by cases h)⟩
      | _ => cases hstep
  | sleeping r =>
      cases m with
      | wait =>
          obtain ⟨-, heq⟩ := Option.ite_none_right_eq_some.mp hstep
          obtain rfl := Option.some.inj heq
          exact ⟨_, Outside.goto rfl rfl rfl rfl (fun _ => rfl) rfl (Or.inl rfl) (fun _ h => by cases h)⟩
      | _ => cases hstep
  | answered r =>
      cases m with
      | receive =>
          obtain rfl := Option.some.inj hstep
          refine ⟨_, rfl, rfl, rfl, rfl, fun _ => rfl, fun cpu => ?_, fun r' hr => Or.inl ?_, fun k => ?_⟩
          · by_cases hc : cpu = r.cpu
            · exact Or.inr ⟨by rw [hc]; exact Function.update_self .., r, rfl, hc.symm⟩
            · exact Or.inl (Function.update_of_ne hc ..)
          · split at hr
            · exact hr
            · exact hr
          · split
            · intro h; cases h
            · intro h; cases h
      | _ => cases hstep
  | served r item count =>
      cases m with
      | leave =>
          obtain rfl := Option.some.inj hstep
          exact ⟨_, Outside.goto rfl rfl rfl rfl (fun _ => rfl) rfl (Or.inr rfl) (fun _ h => by cases h)⟩
      | _ => cases hstep
  | holding k seen => cases hstep

theorem clientStep_cases {p : Phase α} {act : Act α} (hstep : clientStep s t p act = some s') :
    ∃ m l, act = .client m ∧ m ≠ .lock ∧ DtLock.clientStep s.lock t p m = some l
      ∧ s' = { s with
        lock := l
        pcs := Function.update s.pcs t (Pc.enter p)
        retried := Function.update s.retried t (retries s t p m) } := by
  revert hstep
  fun_cases clientStep s t p act <;> intro hstep
  case case1 => nomatch hstep
  case case2 m hm =>
    obtain ⟨l, hl, rfl⟩ := Option.map_eq_some_iff.mp hstep
    exact ⟨m, l, rfl, hm, hl, rfl⟩
  case case3 => nomatch hstep

/-- Who comes still does, after a step of its own, or holds the lock. -/
theorem Inv.comes_self (h : Inv cpus s) {p : Phase α} (ht : s.lock.threads t = p) {m : Move α} {l : State ι α}
    (hstep : DtLock.clientStep s.lock t p m = some l)
    (hs' : s' = { s with
      lock := l
      pcs := Function.update s.pcs t (Pc.enter p)
      retried := Function.update s.retried t (retries s t p m) }) (hcomes : Comes s t ∨ Retried s t) :
    (∃ k seen, s'.lock.threads t = .holding k seen ∧ (s'.pcs t).Responsible) ∨ Comes s' t ∨ Retried s' t := by
  subst hs'
  have hstands := h.tickets.stands t
  rw [ht] at hstands
  unfold Comes Retried at hcomes
  rw [ht] at hcomes
  cases p with
  | out | tried k | turn k | locking k | holding k seen =>
      rcases hcomes with ⟨k', r', -, hr, -⟩ | hno
      · cases hr
      · exact absurd hno id
  | served r item count =>
      rcases hcomes with ⟨k', r', hk, -⟩ | hno
      · cases hk
      · exact absurd hno id
  | entered r =>
      cases m with
      | sample =>
          obtain rfl := Option.some.inj hstep
          rcases hcomes with ⟨k', r', hk, -⟩ | hretried
          · cases hk
          · refine Or.inr (Or.inr ?_)
            unfold Retried
            dsimp only
            rw [State.to_self, Function.update_self]
            exact hretried
      | _ => cases hstep
  | sampled r prev =>
      cases m with
      | take =>
          obtain rfl := Option.some.inj hstep
          refine Or.inr (Or.inl ⟨s.lock.lock.head, r, ?_, ?_, h.tickets.next_le.symm⟩)
          · rw [State.to_self]
            rfl
          · rw [State.to_self]
            rfl
      | _ => cases hstep
  | ticketed r prev k =>
      cases m with
      | register =>
          obtain rfl := Option.some.inj hstep
          refine Or.inr (Or.inl ⟨k, r, ?_, ?_, hstands⟩)
          · rw [State.to_self]
            rfl
          · rw [State.to_self]
            rfl
      | _ => cases hstep
  | spinning r prev k =>
      cases m with
      | pass =>
          obtain ⟨-, heq⟩ := Option.ite_none_left_eq_some.mp hstep
          obtain rfl := Option.some.inj heq
          rcases hcomes with ⟨k', r', hk, hr, hk'⟩ | htold
          · obtain rfl := Option.some.inj hk
            refine Or.inr (Or.inl ⟨k, r, ?_, ?_, hk'⟩)
            · rw [State.to_self]
              rfl
            · rw [State.to_self]
              rfl
          · refine Or.inr (Or.inr ?_)
            unfold Retried
            dsimp only
            rw [State.to_self]
            exact htold
      | _ => cases hstep
  | passed r prev k =>
      cases m with
      | acquire =>
          simp only [DtLock.clientStep] at hstep
          split at hstep
          · obtain rfl := Option.some.inj hstep
            refine Or.inl ⟨k, .nothing, State.to_self .., ?_⟩
            show (Function.update s.pcs t (.ready (some r)) t).Responsible
            rw [Function.update_self]
            trivial
          · next heq =>
              obtain rfl := Option.some.inj hstep
              -- a thread that has been moved does not come any more
              have hmoved : k < s.lock.lock.next ∧ k ≠ s.lock.granted := ⟨hstands.1, hstands.2.mp (not_not.mp heq)⟩
              rcases hcomes with ⟨k', r', hk, hr, hk'⟩ | htold
              · obtain rfl := Option.some.inj hk
                omega
              · refine Or.inr (Or.inr ?_)
                unfold Retried
                dsimp only
                rw [State.to_self]
                exact htold
      | _ => cases hstep
  | polling r prev =>
      have htold : Told s r.cpu := by
        rcases hcomes with ⟨k', r', hk, -⟩ | htold
        · cases hk
        · exact htold
      cases m with
      | poll =>
          refine Or.inr (Or.inr ?_)
          unfold Retried
          simp only [DtLock.clientStep] at hstep
          split at hstep
          · cases hstep
          · split at hstep
            · obtain rfl := Option.some.inj hstep
              dsimp only
              rw [State.to_self]
              exact htold
            · obtain rfl := Option.some.inj hstep
              dsimp only
              rw [State.to_self]
              exact htold
      | _ => cases hstep
  | sleeping r =>
      cases m with
      | wait =>
          obtain ⟨-, heq⟩ := Option.ite_none_right_eq_some.mp hstep
          obtain rfl := Option.some.inj heq
          rcases hcomes with ⟨k', r', hk, -⟩ | htold
          · cases hk
          · refine Or.inr (Or.inr ?_)
            unfold Retried
            dsimp only
            rw [State.to_self]
            exact htold
      | _ => cases hstep
  | answered r =>
      cases m with
      | receive =>
          obtain rfl := Option.some.inj hstep
          rcases hcomes with ⟨k', r', hk, -⟩ | htold
          · cases hk
          · have hretry : (s.lock.lock.items r.cpu).item.isRetry = true := by rw [htold.2]; rfl
            refine Or.inr (Or.inr ?_)
            unfold Retried
            dsimp only
            rw [State.to_self, if_pos hretry, Function.update_self]
            exact hretry
      | _ => cases hstep

/-- A step of another thread does not matter to who comes. -/
theorem Inv.comes_other (h : Inv cpus s) {p p' : Phase α} (ht : s.lock.threads t = p) {m : Move α}
    (ho : Outside s.lock s'.lock t p p' m) (hut : u ≠ t) (hretried : s'.retried u = s.retried u)
    (hcomes : Comes s u ∨ Retried s u) : Comes s' u ∨ Retried s' u := by
  have hthread : s'.lock.threads u = s.lock.threads u := by
    rw [ho.threads, Function.update_of_ne hut]
  have htold : ∀ r, (s.lock.threads u).inside = some r → Told s r.cpu → Told s' r.cpu := by
    rintro r hr ⟨hp, hitem⟩
    refine ⟨?_, by rw [ho.item, hitem]⟩
    rcases ho.progress r.cpu with heq | ⟨-, r', rfl, hcpu⟩
    · rw [heq]
      exact hp
    · exact absurd (h.tickets.cpus u t r r' hr (by rw [ht]; rfl) hcpu.symm) hut
  rcases hcomes with ⟨k, r, hk, hr, hplace⟩ | hback
  · refine Or.inl ⟨k, r, by rw [hthread, hk], by rw [hthread, hr], ?_⟩
    rw [ho.granted, ho.next]
    exact hplace
  · refine Or.inr ?_
    unfold Retried at hback ⊢
    rw [hthread]
    cases hp : s.lock.threads u with
    | entered r | sampled r prev =>
        rw [hp] at hback
        exact hretried.trans hback
    | spinning r prev k | passed r prev k | polling r prev | sleeping r | answered r =>
        rw [hp] at hback
        exact htold r (by rw [hp]; rfl) hback
    | out | tried k | turn k | locking k | ticketed r prev k | served r item count | holding k seen =>
        rw [hp] at hback
        exact hback

theorem inv_clientStep (h : Inv cpus s) {p : Phase α} (ht : s.lock.threads t = p)
    (hp : ∀ k seen, p ≠ .holding k seen) {act : Act α} (hpromised : Promised cpus s (t, act))
    (hstep : clientStep s t p act = some s') : Inv cpus s' := by
  obtain ⟨m, l, rfl, hm, hl, hs'⟩ := clientStep_cases hstep
  obtain ⟨p', ho⟩ := outside_of_clientStep hm hl
  have hlock : DtLock.Promised s.lock (t, m) := by
    cases m with
    | enter r => exact (hpromised r rfl).2
    | take =>
        cases p with
        | sampled r prev => exact h.room ht
        | _ => nomatch hl
    | lock => exact absurd rfl hm
    | serve cpu item count signal => cases p <;> nomatch hl
    | _ => trivial
  have htickets : Tickets l := tickets_clientStep h.tickets ht hlock hl
  have hanswers : Answers l := answers_clientStep h.tickets h.answers ht hlock hl
  have hself : l.threads t = p' := by rw [ho.threads, Function.update_self]
  have hother : ∀ {u}, u ≠ t → l.threads u = s.lock.threads u := fun hu => by
    rw [ho.threads, Function.update_of_ne hu]
  -- an answer that is received was not pending
  have hreceived : ∀ cpu, l.progress cpu = s.lock.progress cpu
      ∨ l.progress cpu = .idle ∧ ¬ (s.lock.progress cpu = .moved ∨ s.lock.progress cpu = .asleep) := by
    intro cpu
    rcases ho.progress cpu with heq | ⟨hidle, r, rfl, rfl⟩
    · exact Or.inl heq
    · have hfits := h.answers.fits t
      rw [ht] at hfits
      refine Or.inr ⟨hidle, ?_⟩
      rcases hfits.1 with hprogress | hprogress <;> rw [hprogress] <;> decide
  have hthread : ∀ u r, (l.threads u).inside = some r →
      (s.lock.threads u).inside = some r ∨ l.threads u = .entered r ∧ u = t ∧ m = .enter r := by
    intro u r hu
    by_cases hut : u = t
    · rw [hut, hself] at hu
      rcases ho.inside r hu with hin | ⟨hentered, henter⟩
      · exact Or.inl (by rw [hut, ht]; exact hin)
      · exact Or.inr ⟨by rw [hut, hself]; exact hentered, hut, henter⟩
    · rw [hother hut] at hu
      exact Or.inl hu
  subst hs'
  refine ⟨htickets, hanswers, ho.size.trans h.size, ?_, ?_, ?_, ?_, ?_, ?_⟩
  · refine h.masks.congr fun cpu => ?_
    rcases hreceived cpu with heq | ⟨hidle, hnot⟩
    · exact Or.inl heq
    · refine Or.inr ⟨not_or.mp hnot, ?_⟩
      show l.progress cpu ≠ _ ∧ l.progress cpu ≠ _
      rw [hidle]
      decide
  · intro u r hu
    rcases hthread u r hu with hin | ⟨-, -, rfl⟩
    · exact h.cpus_lt u r hin
    · exact (hpromised r rfl).1
  · intro u k
    by_cases hut : u = t
    · rw [hut]
      exact hself ▸ ho.locking k
    · show l.threads u ≠ _
      rw [hother hut]
      exact h.locking u k
  · intro u k seen hu
    by_cases hut : u = t
    · subst hut
      show (Function.update s.pcs u (Pc.enter p) u).Ok s.governor
      rw [Function.update_self]
      cases p <;> trivial
    · change l.threads u = _ at hu
      rw [hother hut] at hu
      show (Function.update s.pcs t (Pc.enter p) u).Ok s.governor
      rw [Function.update_of_ne hut]
      exact h.pcs u k seen hu
  · intro u r hu hasleep
    rcases hthread u r hu with hin | ⟨hentered, -, -⟩
    · rcases hreceived r.cpu with heq | ⟨hidle, -⟩
      · exact h.blocking u r hin (heq ▸ hasleep)
      · change l.progress r.cpu = .asleep at hasleep
        rw [hidle] at hasleep
        nomatch hasleep
    · have hfits := hanswers.fits u
      rw [hentered] at hfits
      change l.progress r.cpu = .asleep at hasleep
      rw [show l.progress r.cpu = .idle from hfits] at hasleep
      nomatch hasleep
  · intro cpu hpending
    have hbefore : Pending s cpu := by
      rcases hreceived cpu with heq | ⟨hidle, -⟩
      · exact hpending.imp heq.symm.trans heq.symm.trans
      · rcases hpending with hno | hno
        · change l.progress cpu = _ at hno
          rw [hidle] at hno
          nomatch hno
        · change l.progress cpu = _ at hno
          rw [hidle] at hno
          nomatch hno
    rcases h.cared cpu hbefore with ⟨u, k, seen, hu, hresponsible⟩ | ⟨u, hcomes⟩
    · have hut : u ≠ t := by
        rintro rfl
        exact hp k seen (ht.symm.trans hu)
      refine Or.inl ⟨u, k, seen, (hother hut).trans hu, ?_⟩
      show (Function.update s.pcs t (Pc.enter p) u).Responsible
      rw [Function.update_of_ne hut]
      exact hresponsible
    · by_cases hut : u = t
      · subst hut
        rcases h.comes_self ht hl rfl hcomes with ⟨k, seen, hholds, hresponsible⟩ | hback
        · exact Or.inl ⟨u, k, seen, hholds, hresponsible⟩
        · exact Or.inr ⟨u, hback⟩
      · exact Or.inr ⟨u, h.comes_other ht ho hut (Function.update_of_ne hut ..) hcomes⟩

/-! ## Steps of the server -/

/-- The holder of the lock takes a step, and its thread goes to phase `p'`. -/
theorem Inv.held (h : Inv cpus s) {k : Nat} {seen : Seen} (ht : s.lock.threads t = .holding k seen)
    {p' : Phase α} {pc : Pc} (htickets : Tickets s'.lock) (hanswers : Answers s'.lock)
    (hsize : s'.lock.lock.size = s.lock.lock.size)
    (hthreads : s'.lock.threads = Function.update s.lock.threads t p')
    (hp : p' = .out ∨ ∃ seen', p' = .holding k seen') (hpcs : s'.pcs = Function.update s.pcs t pc)
    (hmasks : Masks cpus s'.governor s'.lock.progress) (hok : pc.Ok s'.governor)
    (hblocking : ∀ u r, (s.lock.threads u).inside = some r → s'.lock.progress r.cpu = .asleep → r.blocking = true)
    (hcared : ∀ cpu, Pending s' cpu → Cared s') : Inv cpus s' := by
  have hother : ∀ {u}, u ≠ t → s'.lock.threads u = s.lock.threads u := fun hu => by
    rw [hthreads, Function.update_of_ne hu]
  have hself : s'.lock.threads t = p' := by rw [hthreads, Function.update_self]
  have hinside : ∀ u r, (s'.lock.threads u).inside = some r → (s.lock.threads u).inside = some r := by
    intro u r hu
    by_cases hut : u = t
    · rw [hut, hself] at hu
      rcases hp with rfl | ⟨seen', rfl⟩
      · nomatch hu
      · nomatch hu
    · rwa [hother hut] at hu
  refine ⟨htickets, hanswers, hsize.trans h.size, hmasks, fun u r hu => h.cpus_lt u r (hinside u r hu), ?_, ?_,
    fun u r hu => hblocking u r (hinside u r hu), hcared⟩
  · intro u m
    by_cases hut : u = t
    · rw [hut, hself]
      rcases hp with rfl | ⟨seen', rfl⟩
      · nofun
      · nofun
    · rw [hother hut]
      exact h.locking u m
  · intro u m seen' hu
    by_cases hut : u = t
    · rw [hut, hpcs, Function.update_self]
      exact hok
    · rw [hother hut] at hu
      exact absurd (h.tickets.holding_unique ht hu) hut

/-- Those who came before a step of the holder of the lock still do, if it
does not move or answer them. -/
theorem Inv.comes_held (h : Inv cpus s) {k : Nat} {seen : Seen} (ht : s.lock.threads t = .holding k seen)
    {p' : Phase α} (hthreads : s'.lock.threads = Function.update s.lock.threads t p')
    (hplace : ∀ m, m ≠ s.lock.granted → s.lock.lock.next ≤ m →
      m = s'.lock.granted ∨ s'.lock.lock.next ≤ m)
    (htold : ∀ cpu, Told s cpu → Told s' cpu) (hretried : s'.retried = s.retried)
    (hcomes : Comes s u ∨ Retried s u) : Comes s' u ∨ Retried s' u := by
  have hgranted : k = s.lock.granted := by
    have hstands := h.tickets.stands t
    rw [ht] at hstands
    exact hstands
  have hut : u ≠ t := by
    rintro rfl
    rcases hcomes with ⟨m, r, -, hr, -⟩ | hback
    · rw [ht] at hr
      nomatch hr
    · unfold Retried at hback
      rw [ht] at hback
      exact hback
  have hthread : s'.lock.threads u = s.lock.threads u := by
    rw [hthreads, Function.update_of_ne hut]
  rcases hcomes with ⟨m, r, hm, hr, hw⟩ | hback
  · have hne : m ≠ s.lock.granted := by
      rintro rfl
      exact hut (h.tickets.unique u t _ hm (by rw [ht, hgranted]; rfl))
    exact Or.inl ⟨m, r, by rw [hthread, hm], by rw [hthread, hr], hplace m hne (hw.resolve_left hne)⟩
  · refine Or.inr ?_
    unfold Retried at hback ⊢
    rw [hthread, hretried]
    cases hp : s.lock.threads u with
    | spinning r prev k | passed r prev k | polling r prev | sleeping r | answered r =>
        rw [hp] at hback
        exact htold r.cpu hback
    | entered r | sampled r prev | out | tried k | turn k | locking k | ticketed r prev k | served r item count
    | holding k seen =>
        rw [hp] at hback
        exact hback

omit [DecidableEq ι] in
/-- Without a holder that is responsible, those who are pending are cared for
by who comes. -/
theorem Inv.comes_of_not_responsible (h : Inv cpus s) {k : Nat} {seen : Seen}
    (ht : s.lock.threads t = .holding k seen) (hnot : ¬ (s.pcs t).Responsible) {cpu : Nat} (hp : Pending s cpu) :
    ∃ u, Comes s u ∨ Retried s u := by
  rcases h.cared cpu hp with ⟨u, m, seen', hu, hresponsible⟩ | hcomes
  · obtain rfl := h.tickets.holding_unique ht hu
    exact absurd hresponsible hnot
  · exact hcomes

/-- The holder of the lock goes on without a step of the lock. -/
theorem Inv.goto (h : Inv cpus s) {k : Nat} {seen : Seen} (ht : s.lock.threads t = .holding k seen) {pc : Pc}
    (hok : pc.Ok s.governor) (hresponsible : (s.pcs t).Responsible → pc.Responsible) : Inv cpus (s.goto t pc) := by
  refine h.held ht h.tickets h.answers rfl (by rw [← ht]; exact (Function.update_eq_self ..).symm)
    (Or.inr ⟨seen, rfl⟩) rfl h.masks hok (fun u r hu => h.blocking u r hu) fun cpu hp => ?_
  by_cases hpc : pc.Responsible
  · refine Or.inl ⟨t, k, seen, ht, ?_⟩
    show (Function.update s.pcs t pc t).Responsible
    rw [Function.update_self]
    exact hpc
  · exact Or.inr (h.comes_of_not_responsible ht (fun hr => hpc (hresponsible hr)) hp)

omit [DecidableEq ι] in
/-- The spin counters do not matter. -/
theorem Inv.spins (h : Inv cpus s) (spinCounter : Nat → Nat) :
    Inv cpus { s with governor := { s.governor with cpuSpinCounter := spinCounter } } :=
  ⟨h.tickets, h.answers, h.size, ⟨h.masks.waitersWords, h.masks.sleepersWords, h.masks.waiters, h.masks.sleepers⟩,
    h.cpus_lt, h.locking,
    fun t k seen ht => by
      have hok := h.pcs t k seen ht
      show (s.pcs t).Ok _
      unfold Pc.Ok at hok ⊢
      split at hok <;> exact hok,
    h.blocking, h.cared⟩

/-- A call of `dtlock_serve` that the sets allow, with the sets after it -/
structure Gives (cpus : Nat) (s : Servers ι α) (g : Governor) (call : Call α) : Prop where
  admits : (s.lock.progress call.cpu).Admits call.signal
  masks : Masks cpus g (Function.update s.lock.progress call.cpu call.signal.progress)
  blockable : call.signal = .sleep → dtlockIsCpuBlockable s.lock.lock call.cpu = true

theorem pending_of_admits {p : Progress} {signal : SignalKind} (h : p.Admits signal) :
    p = .moved ∨ p = .asleep := by
  cases p with
  | moved => exact Or.inl rfl
  | asleep => exact Or.inr rfl
  | idle | served | woken => cases signal <;> exact absurd h id

theorem blocking_of_flags {r : Request} (h : r.flags &&& 1 = 0) : r.blocking = true := by
  unfold Request.flags at h
  by_contra hblocking
  rw [if_neg hblocking] at h
  split at h
  · nomatch h
  · nomatch h

omit [DecidableEq ι] in
/-- The thread of a request that is pending has been told to retry. -/
theorem Inv.retried_of_told (h : Inv cpus s) {cpu : Nat} (hp : Pending s cpu)
    (hthreads : s'.lock.threads = s.lock.threads) (htold : Told s' cpu) : ∃ u, Retried s' u := by
  have hbusy : s.lock.progress cpu ≠ .idle := by
    rcases hp with hw | hw <;> rw [hw] <;> decide
  obtain ⟨u, r, hu, rfl⟩ := h.answers.client cpu hbusy
  have hfits := h.answers.fits u
  refine ⟨u, ?_⟩
  unfold Retried
  rw [hthreads]
  cases hw : s.lock.threads u with
  | spinning r' prev m | passed r' prev m | polling r' prev | sleeping r' | answered r' =>
      rw [hw] at hu
      obtain rfl := Option.some.inj hu
      exact htold
  | ticketed r' prev m | sampled r' prev =>
      rw [hw] at hu hfits
      obtain rfl := Option.some.inj hu
      exact absurd hfits.progress hbusy
  | entered r' =>
      rw [hw] at hu hfits
      obtain rfl := Option.some.inj hu
      exact absurd hfits hbusy
  | served r' item count =>
      rw [hw] at hu hfits
      obtain rfl := Option.some.inj hu
      exact absurd hfits.1 hbusy
  | out | tried m | turn m | locking m | holding m seen' =>
      rw [hw] at hu
      nomatch hu

/-- What a call of `dtlock_serve` leaves as it is -/
structure Serves (l l' : State ι α) (t : ι) (call : Call α) : Prop where
  tickets : Tickets l'
  answers : Answers l'
  threads : l'.threads = l.threads
  granted : l'.granted = l.granted
  next : l'.lock.next = l.lock.next
  size : l'.lock.size = l.lock.size
  progress : l'.progress = Function.update l.progress call.cpu call.signal.progress
  item : (l'.lock.items call.cpu).item = call.item
  items : ∀ cpu, cpu ≠ call.cpu → l'.lock.items cpu = l.lock.items cpu

theorem Inv.serves (h : Inv cpus s) {k : Nat} {seen : Seen} (ht : s.lock.threads t = .holding k seen) {call : Call α}
    (hadmits : (s.lock.progress call.cpu).Admits call.signal) {l : State ι α}
    (hl : DtLock.step s.lock (t, .serve call.cpu call.item call.scheduledCount call.signal) = some l) :
    Serves s.lock l t call := by
  have htickets : Tickets l := tickets_step (a := (t, Move.serve _ _ _ _)) hadmits hl h.tickets
  have hanswers : Answers l := answers_step (a := (t, Move.serve _ _ _ _)) h.tickets hadmits hl h.answers
  simp only [DtLock.step, ht, holderStep] at hl
  obtain ⟨-, heq⟩ := Option.ite_none_left_eq_some.mp hl
  obtain ⟨-, heq⟩ := Option.ite_none_right_eq_some.mp heq
  obtain rfl := Option.some.inj heq
  exact ⟨htickets, hanswers, rfl, rfl, serve_next .., (SameTickets.serve ..).size, rfl, (serve_item ..).1,
    fun cpu hcpu => (serve_elsewhere _ _ _ _ _ cpu hcpu).1⟩

theorem Inv.answer (h : Inv cpus s) {k : Nat} {seen : Seen} (ht : s.lock.threads t = .holding k seen)
    {g : Governor} {call : Call α} {pc : Governor → Pc} (hstep : s.answer t pc (g, some call) = some s')
    (hgives : Gives cpus s g call) (hok : (pc g).Ok g)
    (hresponsible : (s.pcs t).Responsible → (pc g).Responsible ∨ call.item = .retry ∧ call.signal ≠ .sleep) :
    Inv cpus s' := by
  obtain ⟨l, hl, rfl⟩ := Option.map_eq_some_iff.mp hstep
  have hserves := h.serves ht hgives.admits hl
  have hpending : Pending s call.cpu := pending_of_admits hgives.admits
  have hthreads : l.threads = Function.update s.lock.threads t (.holding k seen) := by
    rw [hserves.threads, ← ht, Function.update_eq_self]
  refine h.held ht hserves.tickets hserves.answers hserves.size hthreads (Or.inr ⟨seen, rfl⟩) rfl
    (by rw [show Servers.lock _ = l from rfl, hserves.progress]; exact hgives.masks) hok ?_ fun cpu hp => ?_
  · intro u r hu hasleep
    change l.progress r.cpu = .asleep at hasleep
    rw [hserves.progress] at hasleep
    by_cases hc : r.cpu = call.cpu
    · rw [hc, Function.update_self] at hasleep
      have hsleep : call.signal = .sleep := by
        cases hsignal : call.signal with
        | sleep => rfl
        | default | wake =>
            rw [hsignal] at hasleep
            nomatch hasleep
      -- the flags in the item are those of the request
      obtain ⟨v, r', hv, hr', hflags⟩ := h.answers.answered.flags call.cpu hpending
      obtain rfl := h.tickets.cpus u v r r' hu hv (hc.trans hr'.symm)
      obtain rfl := Option.some.inj (hu.symm.trans hv)
      refine blocking_of_flags ?_
      rw [← hflags]
      exact of_decide_eq_true (hgives.blockable hsleep)
    · rw [Function.update_of_ne hc] at hasleep
      exact h.blocking u r hu hasleep
  · by_cases hpc : (pc g).Responsible
    · refine Or.inl ⟨t, k, seen, hthreads.trans (by rw [← ht, Function.update_eq_self]) ▸ ht, ?_⟩
      show (Function.update s.pcs t (pc g) t).Responsible
      rw [Function.update_self]
      exact hpc
    · by_cases hretry : call.item = .retry ∧ call.signal ≠ .sleep
      · have htold : l.progress call.cpu = .served ∨ l.progress call.cpu = .woken := by
          rw [hserves.progress, Function.update_self]
          cases hsignal : call.signal with
          | default => exact Or.inl rfl
          | wake => exact Or.inr rfl
          | sleep => exact absurd hsignal hretry.2
        have hback : ∃ u, Retried (Servers.goto { s with lock := l, governor := g } t (pc g)) u :=
          h.retried_of_told hpending hserves.threads ⟨htold, hserves.item.trans hretry.1⟩
        exact Or.inr (hback.imp fun _ => Or.inr)
      · have hnot : ¬ (s.pcs t).Responsible := fun hr => (hresponsible hr).elim hpc hretry
        obtain ⟨u, hcomes⟩ := h.comes_of_not_responsible ht hnot hpending
        refine Or.inr ⟨u, h.comes_held ht hthreads (fun m _ hle => Or.inr ?_) (fun c htold => ?_) rfl hcomes⟩
        · show l.lock.next ≤ m
          rw [hserves.next]
          exact hle
        · have hc : c ≠ call.cpu := by
            rintro rfl
            rcases hpending with hw | hw <;> rcases htold.1 with hw' | hw' <;> rw [hw] at hw' <;> nomatch hw'
          unfold Told
          show (l.progress c = _ ∨ l.progress c = _) ∧ (l.lock.items c).item = _
          rw [hserves.progress, Function.update_of_ne hc, hserves.items c hc]
          exact htold

/-- What the holder of the lock leaves as it is when it looks at the first
queue, or begins to move a waiter -/
structure Looks (l l' : State ι α) (t : ι) (k : Nat) (seen : Seen) : Prop where
  tickets : Tickets l'
  answers : Answers l'
  threads : l'.threads = Function.update l.threads t (.holding k seen)
  size : l'.lock.size = l.lock.size
  progress : l'.progress = l.progress

theorem Inv.looks (h : Inv cpus s) {k : Nat} {seen : Seen} (ht : s.lock.threads t = .holding k seen) {m : Move α}
    (hm : m = .empty ∨ m = .front ∨ m = .transfer) {l : State ι α} (hl : DtLock.step s.lock (t, m) = some l) :
    ∃ seen', Looks s.lock l t k seen' := by
  have hpromised : DtLock.Promised s.lock (t, m) := by
    rcases hm with rfl | rfl | rfl <;> trivial
  have htickets : Tickets l := tickets_step hpromised hl h.tickets
  have hanswers : Answers l := answers_step h.tickets hpromised hl h.answers
  rcases hm with rfl | rfl | rfl
  · simp only [DtLock.step, ht, holderStep] at hl
    obtain ⟨-, heq⟩ := Option.ite_none_left_eq_some.mp hl
    obtain rfl := Option.some.inj heq
    exact ⟨_, htickets, hanswers, rfl, rfl, rfl⟩
  · simp only [DtLock.step, ht, holderStep] at hl
    obtain ⟨-, heq⟩ := Option.ite_none_right_eq_some.mp hl
    obtain rfl := Option.some.inj heq
    exact ⟨_, htickets, hanswers, rfl, rfl, rfl⟩
  · cases seen with
    | front cpu =>
        simp only [DtLock.step, ht, holderStep] at hl
        obtain rfl := Option.some.inj hl
        exact ⟨_, htickets, hanswers, rfl, rfl, rfl⟩
    | nothing | waiter | popping cpu =>
        simp only [DtLock.step, ht, holderStep] at hl
        nomatch hl

theorem Inv.look (h : Inv cpus s) {k : Nat} {seen seen' : Seen} (ht : s.lock.threads t = .holding k seen)
    {l : State ι α} (hlooks : Looks s.lock l t k seen') {pc : Pc} (hok : pc.Ok s.governor)
    (hresponsible : pc.Responsible ∨ ∃ cpu, Registered l l.lock.next cpu) :
    Inv cpus ({ s with lock := l }.goto t pc) := by
  refine h.held ht hlooks.tickets hlooks.answers hlooks.size hlooks.threads (Or.inr ⟨seen', rfl⟩) rfl
    (by rw [show Servers.lock _ = l from rfl, hlooks.progress]; exact h.masks) hok
    (fun u r hu hasleep => ?_) fun cpu hp => ?_
  · change l.progress r.cpu = .asleep at hasleep
    rw [hlooks.progress] at hasleep
    exact h.blocking u r hu hasleep
  · rcases hresponsible with hpc | ⟨c, u, r, prev, hu, -⟩
    · refine Or.inl ⟨t, k, seen', ?_, ?_⟩
      · show l.threads t = _
        rw [hlooks.threads, Function.update_self]
      · show (Function.update s.pcs t pc t).Responsible
        rw [Function.update_self]
        exact hpc
    · -- the first in the queue has not been moved
      refine Or.inr ⟨u, Or.inl ⟨l.lock.next, r, ?_, ?_, Or.inr (Nat.le_refl _)⟩⟩
      · show (l.threads u).ticket = _
        rw [hu]
        rfl
      · show (l.threads u).inside = _
        rw [hu]
        rfl

theorem Servers.goto_self (s : Servers ι α) (t : ι) : s.goto t (s.pcs t) = s := by
  unfold Servers.goto
  rw [Function.update_eq_self]

/-- The lock is looked at from a place where the server is responsible. -/
theorem Inv.lockStep (h : Inv cpus s) {k : Nat} {seen : Seen} (ht : s.lock.threads t = .holding k seen) {m : Move α}
    (hm : m = .empty ∨ m = .front ∨ m = .transfer) (hresponsible : (s.pcs t).Responsible)
    (hstep : s.lockStep t m = some s') : Inv cpus s' := by
  obtain ⟨l, hl, rfl⟩ := Option.map_eq_some_iff.mp hstep
  obtain ⟨seen', hlooks⟩ := h.looks ht hm hl
  have hinv := h.look ht hlooks (h.pcs t k seen ht) (Or.inl hresponsible)
  rwa [show Servers.goto { s with lock := l } t (s.pcs t) = { s with lock := l } from
    Servers.goto_self { s with lock := l } t] at hinv

/-- A waiter is moved to the second queue, and becomes one of the waiters. -/
theorem Inv.popfront (h : Inv cpus s) {k cpu : Nat} (ht : s.lock.threads t = .holding k (.popping cpu))
    (hresponsible : (s.pcs t).Responsible) {l : State ι α} (hl : DtLock.step s.lock (t, .popfront) = some l)
    (hok : (s.pcs t).Ok { s.governor with waiters := set s.governor.waiters cpu }) :
    Inv cpus { s with lock := l, governor := { s.governor with waiters := set s.governor.waiters cpu } } := by
  have htickets : Tickets l := tickets_step (a := (t, Move.popfront)) trivial hl h.tickets
  have hanswers : Answers l := answers_step (a := (t, Move.popfront)) h.tickets trivial hl h.answers
  obtain ⟨⟨v, r, prev, hv, rfl, hslot⟩, -⟩ := h.tickets.sees t k _ ht
  have hidle := (Owner.waits h.answers ⟨hv, rfl, hslot⟩).progress
  have hlt : r.cpu < cpus := h.cpus_lt v r (by rw [hv]; rfl)
  simp only [DtLock.step, ht, holderStep] at hl
  obtain rfl := Option.some.inj hl
  refine h.held ht htickets hanswers rfl rfl (Or.inr ⟨.nothing, rfl⟩) (Function.update_eq_self ..).symm
    (h.masks.move hidle hlt) hok (fun u r' hu hasleep => ?_) fun c hp => ?_
  · change Function.update s.lock.progress r.cpu .moved r'.cpu = .asleep at hasleep
    rw [Function.update_apply] at hasleep
    split at hasleep
    · nomatch hasleep
    · exact h.blocking u r' hu hasleep
  · exact Or.inl ⟨t, k, .nothing, State.to_self .., hresponsible⟩

theorem Inv.unlock (h : Inv cpus s) {k : Nat} {seen : Seen} (ht : s.lock.threads t = .holding k seen)
    (hresponsible : ¬ (s.pcs t).Responsible) (hok : (s.pcs t).Ok s.governor)
    (hstep : s.lockStep t .unlock = some s') : Inv cpus s' := by
  obtain ⟨l, hl, rfl⟩ := Option.map_eq_some_iff.mp hstep
  have htickets : Tickets l := tickets_step (a := (t, Move.unlock)) trivial hl h.tickets
  have hanswers : Answers l := answers_step (a := (t, Move.unlock)) h.tickets trivial hl h.answers
  simp only [DtLock.step, ht, holderStep] at hl
  obtain ⟨-, heq⟩ := Option.ite_none_left_eq_some.mp hl
  obtain rfl := Option.some.inj heq
  refine h.held ht htickets hanswers rfl rfl (Or.inl rfl) (Function.update_eq_self ..).symm h.masks hok
    h.blocking fun cpu hp => ?_
  obtain ⟨u, hcomes⟩ := h.comes_of_not_responsible ht hresponsible hp
  refine Or.inr ⟨u, h.comes_held ht rfl (fun m _ hle => ?_) (fun c htold => htold) rfl hcomes⟩
  show m = s.lock.lock.next ∨ s.lock.lock.next + 1 ≤ m
  omega

/-! ## The calls of the server -/

section Answers

variable {cpu : Nat}

omit [DecidableEq ι] in
/-- An answer for good -/
theorem Inv.gives (h : Inv cpus s) (signal : SignalKind) (hadmits : (s.lock.progress cpu).Admits signal)
    (hsignal : signal ≠ .sleep) (item : Answer α) (count : Nat) :
    Gives cpus s (s.governor.served cpu).1 ⟨cpu, item, count, signal⟩ := by
  refine ⟨hadmits, h.masks.answer (pending_of_admits hadmits) ?_, fun hsleep => absurd hsleep hsignal⟩
  cases signal with
  | default => exact Or.inl rfl
  | wake => exact Or.inr rfl
  | sleep => exact absurd rfl hsignal

omit [DecidableEq ι] in
/-- A task for a waiter, or for one that sleeps -/
theorem Inv.gives_serve (h : Inv cpus s) (hpending : Pending s cpu) (task : α) (count : Nat) :
    Gives cpus s (s.governor.serve task count cpu).1 (s.governor.serve task count cpu).2 := by
  rcases hpending with hmoved | hasleep
  · have hgives := h.gives .default (by rw [hmoved]; trivial) nofun (.task task) count
    unfold serve
    rw [h.masks.moved_served hmoved] at hgives ⊢
    exact hgives
  · have hgives := h.gives .wake (by rw [hasleep]; trivial) nofun (.task task) count
    unfold serve
    rw [h.masks.asleep_served hasleep] at hgives ⊢
    exact hgives

end Answers

/-- A loop over a set goes on in the set. -/
theorem Pc.ok_ffsFrom {g : Governor} {set : List Word} (pc : Option Nat → Pc) (hnone : (pc none).Ok g)
    (hsome : ∀ cpu, test set cpu = true → (pc (some cpu)).Ok g) (start : Nat) : (pc (ffsFrom set start)).Ok g := by
  cases hres : ffsFrom set start with
  | none => exact hnone
  | some cpu => exact hsome cpu (ffsFrom_some hres)

theorem inv_shutdown (h : Inv cpus s) {k cpu : Nat} {seen : Seen} (ht : s.lock.threads t = .holding k seen)
    {pc : Governor → Pc} {signal : SignalKind} {same : Bool}
    (hstep : s.answer t pc (s.governor.shutdown cpu signal same) = some s')
    (hadmits : (s.lock.progress cpu).Admits signal) (hsignal : signal ≠ .sleep) (hok : ∀ g, (pc g).Ok g)
    (hresponsible : ∀ g, (s.pcs t).Responsible → (pc g).Responsible) : Inv cpus s' := by
  unfold shutdown at hstep
  cases same with
  | true =>
      exact h.answer ht hstep (h.gives signal hadmits hsignal .null 0) (hok _) fun hr => Or.inl (hresponsible _ hr)
  | false =>
      obtain rfl := Option.some.inj hstep
      exact h.goto ht (hok _) (hresponsible _)

theorem inv_policy (h : Inv cpus s) {k cpu : Nat} {seen : Seen} (ht : s.lock.threads t = .holding k seen)
    {pc : Governor → Pc} (hstep : s.answer t pc (s.governor.applyPolicy s.lock.lock cpu) = some s')
    (hmoved : s.lock.progress cpu = .moved) (hok : ∀ g, (pc g).Ok g) (hresponsible : ∀ g, (pc g).Responsible) :
    Inv cpus s' := by
  have hlt : cpu < cpus := h.pending_lt (Or.inl hmoved)
  unfold applyPolicy at hstep
  split at hstep
  · exact h.answer ht hstep (h.gives .default (by rw [hmoved]; trivial) nofun .null 0) (hok _)
      fun _ => Or.inl (hresponsible _)
  · next hblockable =>
      -- the counter has been increased before
      have hspins := h.spins (Function.update s.governor.cpuSpinCounter cpu (u64 (s.governor.cpuSpinCounter cpu + 1)))
      dsimp only at hstep
      split at hstep
      · refine hspins.answer ht hstep ⟨?_, hspins.masks.sleep hmoved hlt, fun _ => eq_true_of_ne_false hblockable⟩
          (hok _) fun _ => Or.inl (hresponsible _)
        show (s.lock.progress cpu).Admits .sleep
        rw [hmoved]
        trivial
      · obtain rfl := Option.some.inj hstep
        exact hspins.goto ht (hok _) fun _ => hresponsible _

/-- Somebody is told to retry, or nobody is pending. -/
theorem inv_wake (h : Inv cpus s) {k : Nat} {seen : Seen} (ht : s.lock.threads t = .holding k seen)
    (hstep : s.answer t (fun _ => .unlocking) s.governor.wakeOne = some s') : Inv cpus s' := by
  unfold wakeOne at hstep
  split at hstep
  · next cpu hcpu =>
      have hmoved := (h.masks.waiters cpu).mp (ffsFrom_some hcpu)
      exact h.answer ht hstep (h.gives .default (by rw [hmoved]; trivial) nofun .retry 0) trivial fun _ => Or.inr ⟨rfl, nofun⟩
  · next hwaiters =>
      split at hstep
      · next cpu hcpu =>
          have hasleep := (h.masks.sleepers cpu).mp (ffsFrom_some hcpu)
          exact h.answer ht hstep (h.gives .wake (by rw [hasleep]; trivial) nofun .retry 0) trivial
            fun _ => Or.inr ⟨rfl, nofun⟩
      · next hsleepers =>
          obtain rfl := Option.some.inj hstep
          refine h.held ht h.tickets h.answers rfl (by rw [← ht]; exact (Function.update_eq_self ..).symm)
            (Or.inr ⟨seen, rfl⟩) rfl h.masks trivial h.blocking fun cpu hp => ?_
          rcases hp with hmoved | hasleep
          · have hin := (h.masks.waiters cpu).mpr hmoved
            rw [ffsFrom_none hwaiters] at hin
            nomatch hin
          · have hin := (h.masks.sleepers cpu).mpr hasleep
            rw [ffsFrom_none hsleepers] at hin
            nomatch hin

theorem inv_serverStep (h : Inv cpus s) {k : Nat} {seen : Seen} (ht : s.lock.threads t = .holding k seen)
    {act : Act α} (hstep : serverStep s t seen (s.pcs t) act = some s') : Inv cpus s' := by
  have hok := h.pcs t k seen ht
  cases hpc : s.pcs t with
  | ready r =>
      rw [hpc] at hstep
      cases act with
      | shutdown =>
          obtain rfl := Option.some.inj hstep
          refine h.goto ht (Pc.ok_ffsFrom (.shutdownWaiters r) trivial (fun _ => id) 0) ?_
          rw [hpc]
          cases r <;> exact id
      | processed =>
          cases r with
          | none =>
              obtain rfl := Option.some.inj hstep
              exact h.goto ht trivial (by rw [hpc]; exact id)
          | some r =>
              obtain rfl := Option.some.inj hstep
              exact h.goto ht trivial fun _ => trivial
      | _ => cases r <;> nomatch hstep
  | shutdownWaiters r cpu =>
      rw [hpc] at hstep hok
      have hresponsible : ∀ c, (s.pcs t).Responsible → (Pc.shutdownWaiters r c).Responsible := by
        intro c
        rw [hpc]
        cases r <;> exact id
      cases cpu with
      | none =>
          cases act with
          | done =>
              obtain rfl := Option.some.inj hstep
              refine h.goto ht (Pc.ok_ffsFrom (.shutdownSleepers r) trivial (fun _ => id) 0) ?_
              rw [hpc]
              cases r <;> exact id
          | _ => nomatch hstep
      | some cpu =>
          have hmoved := (h.masks.waiters cpu).mp hok
          cases act with
          | visit same =>
              exact inv_shutdown h ht hstep (by rw [hmoved]; trivial) nofun
                (fun g => Pc.ok_ffsFrom (.shutdownWaiters r) trivial (fun _ => id) _) fun g => hresponsible _
          | _ => nomatch hstep
  | shutdownSleepers r cpu =>
      rw [hpc] at hstep hok
      have hresponsible : ∀ c, (s.pcs t).Responsible → (Pc.shutdownSleepers r c).Responsible := by
        intro c
        rw [hpc]
        cases r <;> exact id
      cases cpu with
      | none =>
          cases act with
          | done =>
              obtain rfl := Option.some.inj hstep
              refine h.goto ht trivial ?_
              rw [hpc]
              cases r <;> exact id
          | _ => nomatch hstep
      | some cpu =>
          have hasleep := (h.masks.sleepers cpu).mp hok
          cases act with
          | visit same =>
              exact inv_shutdown h ht hstep (by rw [hasleep]; trivial) nofun
                (fun g => Pc.ok_ffsFrom (.shutdownSleepers r) trivial (fun _ => id) _) fun g => hresponsible _
          | _ => nomatch hstep
  | update r round =>
      rw [hpc] at hstep
      have hresponsible : (s.pcs t).Responsible := by
        rw [hpc]
        trivial
      cases act with
      | empty =>
          obtain ⟨s₁, hs₁, rfl⟩ := Option.map_eq_some_iff.mp hstep
          split
          · obtain ⟨l, hl, rfl⟩ := Option.map_eq_some_iff.mp hs₁
            obtain ⟨seen', hlooks⟩ := h.looks ht (Or.inl rfl) hl
            have hafter : (afterUpdate s.governor r round).Ok s.governor
                ∧ (afterUpdate s.governor r round).Responsible := by
              unfold afterUpdate
              dsimp only
              split
              · exact ⟨Pc.ok_ffsFrom (.serveWaiters r _) trivial (fun _ => id) 0, trivial⟩
              · exact ⟨trivial, trivial⟩
            exact h.look ht hlooks hafter.1 (Or.inl hafter.2)
          · exact h.lockStep ht (Or.inl rfl) hresponsible hs₁
      | front => exact h.lockStep ht (Or.inr (Or.inl rfl)) hresponsible hstep
      | transfer => exact h.lockStep ht (Or.inr (Or.inr rfl)) hresponsible hstep
      | popfront =>
          cases seen with
          | popping cpu =>
              obtain ⟨s₁, hs₁, rfl⟩ := Option.map_eq_some_iff.mp hstep
              obtain ⟨l, hl, rfl⟩ := Option.map_eq_some_iff.mp hs₁
              exact h.popfront ht hresponsible hl (by rw [hpc]; trivial)
          | nothing | waiter | front cpu => nomatch hstep
      | _ => nomatch hstep
  | serveWaiters r round cpu =>
      rw [hpc] at hstep hok
      cases cpu with
      | none =>
          cases act with
          | done =>
              obtain rfl := Option.some.inj hstep
              exact h.goto ht (Pc.ok_ffsFrom (.serveSleepers r round) trivial (fun _ => id) 0) fun _ => trivial
          | _ => nomatch hstep
      | some cpu =>
          have hmoved := (h.masks.waiters cpu).mp hok
          cases act with
          | get task =>
              cases task with
              | none =>
                  obtain rfl := Option.some.inj hstep
                  exact h.goto ht (Pc.ok_ffsFrom (.serveWaiters r _) trivial (fun _ => id) _) fun _ => trivial
              | some task =>
                  change s.answer t (fun g => .serveWaiters r (round.next true) (ffsFrom g.waiters (cpu + 1)))
                    ((s.governor.serve task.1 task.2 cpu).1, some (s.governor.serve task.1 task.2 cpu).2) = _ at hstep
                  exact h.answer ht hstep (h.gives_serve (Or.inl hmoved) task.1 task.2)
                    (Pc.ok_ffsFrom (.serveWaiters r _) trivial (fun _ => id) _) fun _ => Or.inl trivial
          | _ => nomatch hstep
  | serveSleepers r round cpu =>
      rw [hpc] at hstep hok
      cases cpu with
      | none =>
          cases act with
          | done =>
              obtain rfl := Option.some.inj hstep
              exact h.goto ht (Pc.ok_ffsFrom (.policy r round) trivial (fun _ => id) 0) fun _ => trivial
          | _ => nomatch hstep
      | some cpu =>
          have hasleep := (h.masks.sleepers cpu).mp hok
          cases act with
          | get task =>
              cases task with
              | none =>
                  obtain rfl := Option.some.inj hstep
                  exact h.goto ht (Pc.ok_ffsFrom (.serveSleepers r _) trivial (fun _ => id) _) fun _ => trivial
              | some task =>
                  change s.answer t (fun g => .serveSleepers r (round.next true) (ffsFrom g.sleepers (cpu + 1)))
                    ((s.governor.serve task.1 task.2 cpu).1, some (s.governor.serve task.1 task.2 cpu).2) = _ at hstep
                  exact h.answer ht hstep (h.gives_serve (Or.inr hasleep) task.1 task.2)
                    (Pc.ok_ffsFrom (.serveSleepers r _) trivial (fun _ => id) _) fun _ => Or.inl trivial
          | _ => nomatch hstep
  | policy r round cpu =>
      rw [hpc] at hstep hok
      cases cpu with
      | none =>
          cases act with
          | done =>
              obtain rfl := Option.some.inj hstep
              exact h.goto ht trivial fun _ => trivial
          | _ => nomatch hstep
      | some cpu =>
          cases act with
          | policy =>
              exact inv_policy h ht hstep ((h.masks.waiters cpu).mp hok)
                (fun g => Pc.ok_ffsFrom (.policy r round) trivial (fun _ => id) _) fun _ => trivial
          | _ => nomatch hstep
  | self r =>
      rw [hpc] at hstep
      cases act with
      | self task shutdown =>
          obtain rfl := Option.some.inj hstep
          split
          · exact h.goto ht trivial fun _ => trivial
          · exact h.goto ht trivial fun _ => trivial
      | _ => nomatch hstep
  | leaving =>
      rw [hpc] at hstep
      cases act with
      | empty =>
          obtain ⟨s₁, hs₁, rfl⟩ := Option.map_eq_some_iff.mp hstep
          obtain ⟨l, hl, rfl⟩ := Option.map_eq_some_iff.mp hs₁
          obtain ⟨seen', hlooks⟩ := h.looks ht (Or.inl rfl) hl
          split
          · exact h.look ht hlooks trivial (Or.inl trivial)
          · next hempty =>
              refine h.look ht hlooks trivial (Or.inr ?_)
              have hpos := hlooks.tickets.pos
              have hlock : l.lock = s.lock.lock := by
                simp only [DtLock.step, ht, holderStep] at hl
                obtain ⟨-, heq⟩ := Option.ite_none_left_eq_some.mp hl
                obtain rfl := Option.some.inj heq
                rfl
              refine (hlooks.tickets.entry l.lock.next (Nat.le_refl _) (by omega)).resolve_left fun hlt => hempty ?_
              rw [hlock] at hlt
              exact decide_eq_true hlt
      | _ => nomatch hstep
  | waking =>
      rw [hpc] at hstep
      cases act with
      | wake => exact inv_wake h ht hstep
      | _ => nomatch hstep
  | unlocking =>
      rw [hpc] at hstep
      cases act with
      | unlock => exact h.unlock ht (by rw [hpc]; exact id) (by rw [hpc]; trivial) hstep
      | _ => nomatch hstep

theorem inv_step {a : ι × Act α} (hpromised : Promised cpus s a) (hstep : step s a = some s') (h : Inv cpus s) :
    Inv cpus s' := by
  obtain ⟨t, act⟩ := a
  unfold step at hstep
  dsimp only at hstep
  split at hstep
  · next k seen ht => exact inv_serverStep h ht hstep
  · next hnot => exact inv_clientStep h rfl hnot hpromised hstep

/-! ## Runs -/

/-- What holds at any time -/
structure Governed (s : Servers ι α) : Prop where
  disjoint : ∀ cpu, ¬ (isset s.governor.waiters cpu = true ∧ isset s.governor.sleepers cpu = true)
  /-- The waiters have been moved to the second queue and not answered. -/
  waiters : ∀ cpu, isset s.governor.waiters cpu = true ↔ s.lock.progress cpu = .moved
  /-- The last answer to a sleeper was to sleep. -/
  sleepers : ∀ cpu, isset s.governor.sleepers cpu = true ↔ s.lock.progress cpu = .asleep
  /-- Only those whose pending request is blocking are told to sleep. -/
  blocking : ∀ cpu, s.lock.progress cpu = .asleep →
    ∃ t r, (s.lock.threads t).inside = some r ∧ r.cpu = cpu ∧ r.blocking = true
  /-- While nobody holds the lock, somebody is on the way to it. -/
  comes : (∀ t k seen, s.lock.threads t ≠ .holding k seen) →
    (∃ cpu, isset s.governor.waiters cpu = true ∨ isset s.governor.sleepers cpu = true) →
      ∃ t, Comes s t ∨ Retried s t
  /-- While no ticket for the lock is taken, somebody has been told to retry. -/
  retried : s.lock.lock.head = s.lock.granted →
    (∃ cpu, isset s.governor.waiters cpu = true ∨ isset s.governor.sleepers cpu = true) → ∃ t, Retried s t

omit [DecidableEq ι] in
theorem Inv.governed (h : Inv cpus s) : Governed s := by
  have hwaiters : ∀ cpu, isset s.governor.waiters cpu = true ↔ s.lock.progress cpu = .moved := fun cpu => by
    rw [isset_eq]
    exact h.masks.waiters cpu
  have hsleepers : ∀ cpu, isset s.governor.sleepers cpu = true ↔ s.lock.progress cpu = .asleep := fun cpu => by
    rw [isset_eq]
    exact h.masks.sleepers cpu
  have hcomes : (∀ t k seen, s.lock.threads t ≠ .holding k seen) →
      (∃ cpu, isset s.governor.waiters cpu = true ∨ isset s.governor.sleepers cpu = true) →
        ∃ t, Comes s t ∨ Retried s t := by
    rintro hfree ⟨cpu, hin⟩
    rcases h.cared cpu (hin.imp (hwaiters cpu).mp (hsleepers cpu).mp) with ⟨t, k, seen, ht, -⟩ | hback
    · exact absurd ht (hfree t k seen)
    · exact hback
  refine ⟨fun cpu hboth => ?_, hwaiters, hsleepers, fun cpu hasleep => ?_, hcomes, fun hfree hin => ?_⟩
  · have hmoved := (hwaiters cpu).mp hboth.1
    rw [(hsleepers cpu).mp hboth.2] at hmoved
    nomatch hmoved
  · obtain ⟨t, r, ht, rfl⟩ := h.answers.client cpu (by rw [hasleep]; decide)
    exact ⟨t, r, ht, rfl, h.blocking t r ht hasleep⟩
  · -- all tickets have been taken from the queue
    have hgone : ∀ t k, (s.lock.threads t).ticket = some k → k ≠ s.lock.granted ∧ k < s.lock.lock.next := by
      intro t k ht
      have hlt := h.tickets.fresh t k ht
      have hgranted := h.tickets.granted_lt
      omega
    have hnobody : ∀ t k seen, s.lock.threads t ≠ .holding k seen := by
      intro t k seen ht
      have hstands := h.tickets.stands t
      rw [ht] at hstands
      exact (hgone t k (by rw [ht]; rfl)).1 hstands
    obtain ⟨t, ⟨k, r, hk, -, hplace⟩ | hretried⟩ := hcomes hnobody hin
    · have hno := hgone t k hk
      omega
    · exact ⟨t, hretried⟩

/-- In every run of servers and submitters, for any policy, the sets are what
they stand for, and nobody is stranded. -/
theorem nobody_stranded (cpus : Nat) (hpos : 0 < cpus) (spins : Nat) (acts : List (ι × Act α))
    (hpromised : Along step (Promised cpus) (initServers cpus spins) acts)
    (hrun : run step (initServers cpus spins) acts = some s') : Governed s' :=
  (invariant_along (fun _ _ _ hp hstep hinv => inv_step hp hstep hinv) hpromised hrun
    (inv_init hpos spins)).governed

/-- A server puts a waiter to sleep, finds a task for itself, and wakes the
waiter up when it leaves. -/
def sleeperWoken : List (Bool × Act Unit) :=
  [(false, .client (.enter ⟨0, true, false⟩)), (false, .client .sample), (false, .client .take), (false, .client .register),
    (false, .client .pass), (false, .client .acquire), (false, .processed),
    (true, .client (.enter ⟨1, true, false⟩)), (true, .client .sample), (true, .client .take), (true, .client .register),
    (false, .empty), (false, .front), (false, .transfer), (false, .popfront), (false, .empty),
    (false, .get none), (false, .done), (false, .done), (false, .policy), (false, .done), (false, .empty),
    (false, .self true false), (false, .empty), (false, .wake), (false, .unlock)]

theorem sleeperWoken_governed :
    ∃ s', run step (initServers 2 0) sleeperWoken = some s' ∧ Governed s' := by
  have hrun : (run step (initServers 2 0) sleeperWoken).isSome := by decide
  obtain ⟨s', hs'⟩ := Option.isSome_iff_exists.mp hrun
  exact ⟨s', hs', nobody_stranded 2 (by decide) 0 sleeperWoken (by decide) hs'⟩

end Governor

end Nosv
