import Nosv.DtLockTickets

/-!
# Answers of the delegation lock

What a request and its answer say about the item of the CPU, from the time
that the signal is sampled until the answer has been received. Nobody but
the server writes the counter of the signal, and only once for a request, so
that the answer is not missed when it is there before the loop over the
signal begins.
-/

namespace Nosv

open Run

namespace DtLock

variable {ι α : Type} [DecidableEq ι] {s s' : State ι α} {t u : ι} {k : Nat}

/-- The request of a thread is in the second queue: what its progress says
about the item and the sleep variable of its CPU, `prev` being the counter
that was sampled before. -/
inductive Delegated (s : State ι α) (r : Request) (prev : BitVec 31) : Prop where
  | moved (progress : s.progress r.cpu = .moved) (signal : (s.lock.items r.cpu).signal.signalCnt = prev)
      (awake : s.lock.cpuSleepVars r.cpu = false) (flags : (s.lock.items r.cpu).flags = r.flags)
  | asleep (progress : s.progress r.cpu = .asleep) (signal : (s.lock.items r.cpu).signal.signalCnt ≠ prev)
      (sleep : (s.lock.items r.cpu).signal.sleep = true) (awake : s.lock.cpuSleepVars r.cpu = false)
      (flags : (s.lock.items r.cpu).flags = r.flags)
  | served (progress : s.progress r.cpu = .served) (signal : (s.lock.items r.cpu).signal.signalCnt ≠ prev)
      (sleep : (s.lock.items r.cpu).signal.sleep = false) (awake : s.lock.cpuSleepVars r.cpu = false)
  | woken (progress : s.progress r.cpu = .woken) (signal : (s.lock.items r.cpu).signal.signalCnt ≠ prev)
      (sleep : (s.lock.items r.cpu).signal.sleep = true) (awake : s.lock.cpuSleepVars r.cpu = true)

/-- The request is not in the second queue, and its signal has not changed. -/
structure Waits (s : State ι α) (r : Request) (prev : BitVec 31) : Prop where
  progress : s.progress r.cpu = .idle
  signal : (s.lock.items r.cpu).signal.signalCnt = prev

/-- A thread with ticket `k` has been moved. -/
def WasMoved (s : State ι α) (k : Nat) : Prop := k < s.lock.next ∧ k ≠ s.granted

/-- What a phase says about the item of its CPU -/
def Fits (s : State ι α) : Phase α → Prop
  | .entered r => s.progress r.cpu = .idle
  | .sampled r prev | .ticketed r prev _ => Waits s r prev
  | .spinning r prev k | .passed r prev k =>
      (WasMoved s k → Delegated s r prev) ∧ (¬ WasMoved s k → Waits s r prev)
  | .polling r prev => Delegated s r prev
  | .sleeping r =>
      s.progress r.cpu = .asleep ∧ s.lock.cpuSleepVars r.cpu = false ∧ (s.lock.items r.cpu).flags = r.flags
        ∨ s.progress r.cpu = .woken ∧ s.lock.cpuSleepVars r.cpu = true
  | .answered r =>
      (s.progress r.cpu = .served ∨ s.progress r.cpu = .woken) ∧ s.lock.cpuSleepVars r.cpu = false
  | .served r item count =>
      s.progress r.cpu = .idle ∧ s.last r.cpu = some (item, count) ∧ item.isRetry = false
  | .out | .tried _ | .turn _ | .locking _ | .holding _ _ => True

structure Answers (s : State ι α) : Prop where
  fits : ∀ t, Fits s (s.threads t)
  /-- The next signal differs from the one that is there. -/
  counter : ∀ cpu, (s.lock.items cpu).signal.signalCnt ≠ ((s.lock.items cpu).next + 1).setWidth 31
  awake : ∀ cpu, s.progress cpu = .idle → s.lock.cpuSleepVars cpu = false
  /-- Somebody waits for each request in the second queue. -/
  client : ∀ cpu, s.progress cpu ≠ .idle → ∃ t r, (s.threads t).inside = some r ∧ r.cpu = cpu
  last : ∀ cpu, s.progress cpu = .asleep ∨ s.progress cpu = .served ∨ s.progress cpu = .woken →
    s.last cpu = some ((s.lock.items cpu).item, (s.lock.items cpu).scheduledCount)
  /-- The flags of a request that is being moved are in its item. -/
  popping : ∀ t k cpu, s.threads t = .holding k (.popping cpu) → ∀ u r prev,
    s.threads u = .spinning r prev s.lock.next → (s.lock.items cpu).flags = r.flags

theorem counter_of_serve (next : BitVec 32) : next.setWidth 31 ≠ (next + 1).setWidth 31 := by
  intro h
  have hsum : (next + 1).setWidth 31 = next.setWidth 31 + 1 := by
    rw [BitVec.setWidth_add _ _ (by decide)]
    rfl
  rw [hsum] at h
  bv_omega

omit [DecidableEq ι] in
theorem answers_init {size : Nat} {memory : Nat → BitVec 32} (hzero : ∀ cpu, memory cpu = 0) :
    Answers (init size memory : State ι α) where
  fits t := trivial
  counter cpu := by
    show (0 : BitVec 31) ≠ (memory cpu + 1).setWidth 31
    rw [hzero]
    decide
  awake cpu _ := rfl
  client cpu h := absurd rfl h
  last cpu h := by
    rcases h with h | h | h
    · nomatch h
    · nomatch h
    · nomatch h
  popping t k cpu h := nomatch h

/-! ## The item of one CPU -/

/-- The item of the CPU and its request are the same in two states. -/
structure SameItem (s s' : State ι α) (cpu : Nat) : Prop where
  progress : s'.progress cpu = s.progress cpu
  last : s'.last cpu = s.last cpu
  awake : s'.lock.cpuSleepVars cpu = s.lock.cpuSleepVars cpu
  signal : (s'.lock.items cpu).signal = (s.lock.items cpu).signal
  flags : (s'.lock.items cpu).flags = (s.lock.items cpu).flags

omit [DecidableEq ι] in
theorem SameItem.delegated {r : Request} {prev : BitVec 31} (h : SameItem s s' r.cpu) (hd : Delegated s r prev) :
    Delegated s' r prev := by
  cases hd with
  | moved progress signal awake flags =>
      exact .moved (h.progress ▸ progress) (h.signal ▸ signal) (h.awake ▸ awake) (h.flags ▸ flags)
  | asleep progress signal sleep awake flags =>
      exact .asleep (h.progress ▸ progress) (h.signal ▸ signal) (h.signal ▸ sleep) (h.awake ▸ awake) (h.flags ▸ flags)
  | served progress signal sleep awake =>
      exact .served (h.progress ▸ progress) (h.signal ▸ signal) (h.signal ▸ sleep) (h.awake ▸ awake)
  | woken progress signal sleep awake =>
      exact .woken (h.progress ▸ progress) (h.signal ▸ signal) (h.signal ▸ sleep) (h.awake ▸ awake)

omit [DecidableEq ι] in
theorem SameItem.waits {r : Request} {prev : BitVec 31} (h : SameItem s s' r.cpu) (hw : Waits s r prev) :
    Waits s' r prev :=
  ⟨h.progress ▸ hw.progress, h.signal ▸ hw.signal⟩

omit [DecidableEq ι] in
/-- A thread is not concerned by a step that leaves the item of its CPU, and
the place of its ticket. -/
theorem Fits.same {p : Phase α} (hitem : ∀ r, p.inside = some r → SameItem s s' r.cpu)
    (hmoved : ∀ k, p.ticket = some k → (WasMoved s' k ↔ WasMoved s k)) (h : Fits s p) : Fits s' p := by
  cases p with
  | entered r => exact (hitem r rfl).progress.trans h
  | sampled r prev | ticketed r prev k => exact (hitem r rfl).waits h
  | spinning r prev k | passed r prev k =>
      have hiff := hmoved k rfl
      exact ⟨fun hm => (hitem r rfl).delegated (h.1 (hiff.mp hm)),
        fun hm => (hitem r rfl).waits (h.2 fun hm' => hm (hiff.mpr hm'))⟩
  | polling r prev => exact (hitem r rfl).delegated h
  | sleeping r =>
      have hsame := hitem r rfl
      rcases h with ⟨hp, ha, hf⟩ | ⟨hp, ha⟩
      · exact Or.inl ⟨hsame.progress.trans hp, hsame.awake.trans ha, hsame.flags.trans hf⟩
      · exact Or.inr ⟨hsame.progress.trans hp, hsame.awake.trans ha⟩
  | answered r =>
      have hsame := hitem r rfl
      exact ⟨h.1.imp hsame.progress.trans hsame.progress.trans, hsame.awake.trans h.2⟩
  | served r item count =>
      have hsame := hitem r rfl
      exact ⟨hsame.progress.trans h.1, hsame.last.trans h.2.1, h.2.2⟩
  | out | tried k | turn k | locking k | holding k seen => trivial

/-! ## Steps -/

/-- Nothing has changed of other CPUs than `c`. -/
structure Elsewhere (s s' : State ι α) (c : Nat) : Prop where
  items : ∀ cpu, cpu ≠ c → s'.lock.items cpu = s.lock.items cpu
  progress : ∀ cpu, cpu ≠ c → s'.progress cpu = s.progress cpu
  last : ∀ cpu, cpu ≠ c → s'.last cpu = s.last cpu
  awake : ∀ cpu, cpu ≠ c → s'.lock.cpuSleepVars cpu = s.lock.cpuSleepVars cpu

omit [DecidableEq ι] in
theorem Elsewhere.same {c cpu : Nat} (h : Elsewhere s s' c) (hne : cpu ≠ c) : SameItem s s' cpu :=
  ⟨h.progress cpu hne, h.last cpu hne, h.awake cpu hne, congrArg Item.signal (h.items cpu hne),
    congrArg Item.flags (h.items cpu hne)⟩

/-- What holds of the item of CPU `c` after a step -/
structure ItemOk (s : State ι α) (c : Nat) : Prop where
  counter : (s.lock.items c).signal.signalCnt ≠ ((s.lock.items c).next + 1).setWidth 31
  awake : s.progress c = .idle → s.lock.cpuSleepVars c = false
  client : s.progress c ≠ .idle → ∃ t r, (s.threads t).inside = some r ∧ r.cpu = c
  last : s.progress c = .asleep ∨ s.progress c = .served ∨ s.progress c = .woken →
    s.last c = some ((s.lock.items c).item, (s.lock.items c).scheduledCount)

omit [DecidableEq ι] in
/-- The flags and the ticket of an item do not matter. -/
theorem Answers.itemOk (h : Answers s) {c : Nat} (hsignal : (s'.lock.items c).signal = (s.lock.items c).signal)
    (hnext : (s'.lock.items c).next = (s.lock.items c).next) (hitem : (s'.lock.items c).item = (s.lock.items c).item)
    (hcount : (s'.lock.items c).scheduledCount = (s.lock.items c).scheduledCount)
    (hprogress : s'.progress c = s.progress c) (hlast : s'.last c = s.last c)
    (hawake : s'.lock.cpuSleepVars c = s.lock.cpuSleepVars c)
    (hclient : s.progress c ≠ .idle → ∃ t r, (s'.threads t).inside = some r ∧ r.cpu = c) : ItemOk s' c := by
  refine ⟨?_, ?_, ?_, ?_⟩
  · rw [hsignal, hnext]
    exact h.counter c
  · rw [hprogress, hawake]
    exact h.awake c
  · rw [hprogress]
    exact hclient
  · rw [hprogress, hlast, hitem, hcount]
    exact h.last c

/-- Thread `t` takes a step to phase `q` that changes the item of CPU `c` at
most. -/
theorem Answers.change (h : Answers s) {q : Phase α} {c : Nat}
    (hthreads : s'.threads = Function.update s.threads t q) (helse : Elsewhere s s' c)
    (hmoved : ∀ u k, u ≠ t → (s.threads u).ticket = some k → (∀ r, (s.threads u).inside = some r → r.cpu ≠ c) →
      (WasMoved s' k ↔ WasMoved s k))
    (hself : Fits s' q) (hcpu : ∀ u r, u ≠ t → (s.threads u).inside = some r → r.cpu = c → Fits s' (s.threads u))
    (hinside : ∀ r, (s.threads t).inside = some r → q.inside = some r ∨ s'.progress r.cpu = .idle)
    (hitem : ItemOk s' c)
    (hpopping : ∀ v k cpu, s'.threads v = .holding k (.popping cpu) → ∀ u r prev,
      s'.threads u = .spinning r prev s'.lock.next → (s'.lock.items cpu).flags = r.flags) : Answers s' := by
  have hself' : s'.threads t = q := by rw [hthreads, Function.update_self]
  have hother : ∀ {u}, u ≠ t → s'.threads u = s.threads u := fun hu => by
    rw [hthreads, Function.update_of_ne hu]
  refine ⟨fun u => ?_, fun cpu => ?_, fun cpu => ?_, fun cpu => ?_, fun cpu => ?_, hpopping⟩
  · by_cases hut : u = t
    · rw [hut, hself']
      exact hself
    · rw [hother hut]
      by_cases hin : ∃ r, (s.threads u).inside = some r ∧ r.cpu = c
      · obtain ⟨r, hr, hc⟩ := hin
        exact hcpu u r hut hr hc
      · have hne : ∀ r, (s.threads u).inside = some r → r.cpu ≠ c := fun r hr hc => hin ⟨r, hr, hc⟩
        exact (h.fits u).same (fun r hr => helse.same (hne r hr)) fun k hk => hmoved u k hut hk hne
  · by_cases hc : cpu = c
    · exact hc ▸ hitem.counter
    · rw [helse.items cpu hc]
      exact h.counter cpu
  · by_cases hc : cpu = c
    · exact hc ▸ hitem.awake
    · rw [helse.progress cpu hc, helse.awake cpu hc]
      exact h.awake cpu
  · by_cases hc : cpu = c
    · exact hc ▸ hitem.client
    · intro hne
      have hold := hne
      rw [helse.progress cpu hc] at hold
      obtain ⟨u, r, hu, hr⟩ := h.client cpu hold
      by_cases hut : u = t
      · subst hut
        rcases hinside r hu with hkept | hidle
        · exact ⟨u, r, by rw [hself']; exact hkept, hr⟩
        · exact absurd (hr ▸ hidle) hne
      · exact ⟨u, r, by rw [hother hut]; exact hu, hr⟩
  · by_cases hc : cpu = c
    · exact hc ▸ hitem.last
    · rw [helse.progress cpu hc, helse.last cpu hc, helse.items cpu hc]
      exact h.last cpu

/-- Thread `t` takes a step that changes no item. -/
theorem Answers.advance (h : Answers s) {q : Phase α}
    (hthreads : s'.threads = Function.update s.threads t q) (hitems : s'.lock.items = s.lock.items)
    (hvars : s'.lock.cpuSleepVars = s.lock.cpuSleepVars) (hprogress : s'.progress = s.progress)
    (hlast : s'.last = s.last)
    (hmoved : ∀ u k, u ≠ t → (s.threads u).ticket = some k → (WasMoved s' k ↔ WasMoved s k))
    (hself : ∀ k, q.ticket = some k → (WasMoved s' k ↔ WasMoved s k)) (hfits : Fits s q)
    (hinside : ∀ r, (s.threads t).inside = some r → q.inside = some r ∨ s.progress r.cpu = .idle)
    (hseen : ∀ k cpu, q ≠ .holding k (.popping cpu))
    (hspin : (∃ v k cpu, v ≠ t ∧ s.threads v = .holding k (.popping cpu)) →
      s'.lock.next = s.lock.next ∧ ∀ r prev, q ≠ .spinning r prev s.lock.next) : Answers s' := by
  have helse : ∀ c, Elsewhere s s' c := fun c =>
    ⟨fun _ _ => by rw [hitems], fun _ _ => by rw [hprogress], fun _ _ => by rw [hlast], fun _ _ => by rw [hvars]⟩
  have hself' : s'.threads t = q := by rw [hthreads, Function.update_self]
  have hother : ∀ {u}, u ≠ t → s'.threads u = s.threads u := fun hu => by
    rw [hthreads, Function.update_of_ne hu]
  have hsame : ∀ cpu, SameItem s s' cpu := fun cpu => (helse (cpu + 1)).same (Nat.ne_of_lt (Nat.lt_succ_self _))
  refine h.change (c := 0) hthreads (helse 0) (fun u k hut hk _ => hmoved u k hut hk)
    (hfits.same (fun _ _ => hsame _) hself)
    (fun u _ hut _ _ => (h.fits u).same (fun _ _ => hsame _) fun k hk => hmoved u k hut hk) ?_
    (h.itemOk (by rw [hitems]) (by rw [hitems]) (by rw [hitems]) (by rw [hitems]) (by rw [hprogress]) (by rw [hlast])
      (by rw [hvars]) ?_) ?_
  · rw [hprogress]
    exact hinside
  · intro hne
    obtain ⟨u, r, hu, hr⟩ := h.client 0 hne
    by_cases hut : u = t
    · subst hut
      rcases hinside r hu with hkept | hidle
      · exact ⟨u, r, by rw [hself']; exact hkept, hr⟩
      · exact absurd (hr ▸ hidle) hne
    · exact ⟨u, r, by rw [hother hut]; exact hu, hr⟩
  · intro v k cpu hv u r prev hu
    have hvt : v ≠ t := by
      rintro rfl
      exact hseen k cpu (hself'.symm.trans hv)
    rw [hother hvt] at hv
    obtain ⟨hnext, hnot⟩ := hspin ⟨v, k, cpu, hvt, hv⟩
    rw [hnext] at hu
    have hut : u ≠ t := by
      rintro rfl
      exact hnot r prev (hself'.symm.trans hu)
    rw [hother hut] at hu
    rw [hitems]
    exact h.popping v k cpu hv u r prev hu

omit [DecidableEq ι] in
theorem Tickets.not_wasMoved (h : Tickets s) {r : Request} {prev : BitVec 31}
    (ht : s.threads t = .ticketed r prev k) : ¬ WasMoved s k := by
  have hstands := h.stands t
  rw [ht] at hstands
  rintro ⟨hlt, hne⟩
  exact (hstands.resolve_left hne).not_gt hlt

theorem answers_acquire (htickets : Tickets s) (h : Answers s) {r : Request} {prev : BitVec 31}
    (ht : s.threads t = .passed r prev k) (hne : (s.lock.items r.cpu).ticket ≠ k) :
    Answers ({ s with lock := s.lock.setFlags r }.to t (.holding k .nothing)) := by
  have hstands := htickets.stands t
  rw [ht] at hstands
  have hfits := h.fits t
  rw [ht] at hfits
  obtain rfl : k = s.granted := by
    by_contra hk
    exact hne (hstands.2.mpr hk)
  have hwaits : Waits s r prev := hfits.2 fun hmoved => hmoved.2 rfl
  have hitem : (s.lock.setFlags r).items r.cpu = { s.lock.items r.cpu with flags := r.flags } :=
    Function.update_self ..
  refine h.change (c := r.cpu) rfl ⟨fun cpu hcpu => Function.update_of_ne hcpu .., fun _ _ => rfl, fun _ _ => rfl,
    fun _ _ => rfl⟩ (fun _ _ _ _ _ => Iff.rfl) trivial (fun u r' hut hu hcpu => ?_) (fun r' hr' => ?_)
    (h.itemOk ((congrArg Item.signal hitem).trans rfl) ((congrArg Item.next hitem).trans rfl)
      ((congrArg Item.item hitem).trans rfl) ((congrArg Item.scheduledCount hitem).trans rfl) rfl rfl rfl
      fun hidle => absurd hwaits.progress hidle) fun v m cpu hv => ?_
  · exact absurd (htickets.cpus u t r' r hu (congrArg Phase.inside ht) hcpu) hut
  · rw [ht] at hr'
    obtain rfl := Option.some.inj hr'
    exact Or.inr hwaits.progress
  · -- nobody else holds the lock
    intro u r' prev' hu
    by_cases hvt : v = t
    · rw [hvt] at hv
      have hself := hv.symm.trans (State.to_self ..)
      nomatch hself
    · have hv : s.threads v = .holding m (.popping cpu) := (State.to_ne _ _ hvt).symm.trans hv
      have hm := htickets.stands v
      rw [hv] at hm
      obtain rfl : m = s.granted := hm
      exact absurd (htickets.unique v t _ (congrArg Phase.ticket hv) (congrArg Phase.ticket ht)) hvt

/-- The thread goes on, and no item changes. -/
theorem Answers.onward (h : Answers s) {p q : Phase α} (ht : s.threads t = p)
    (hthreads : s'.threads = Function.update s.threads t q) (hitems : s'.lock.items = s.lock.items)
    (hvars : s'.lock.cpuSleepVars = s.lock.cpuSleepVars) (hprogress : s'.progress = s.progress)
    (hlast : s'.last = s.last) (hnext : s'.lock.next = s.lock.next) (hgranted : s'.granted = s.granted)
    (hfits : Fits s q) (hinside : ∀ r, p.inside = some r → q.inside = some r ∨ s.progress r.cpu = .idle)
    (hseen : ∀ k cpu, q ≠ .holding k (.popping cpu))
    (hspin : ∀ r prev, q = .spinning r prev s.lock.next → ∀ v k cpu, s.threads v ≠ .holding k (.popping cpu)) :
    Answers s' := by
  have hmoved : ∀ k, WasMoved s' k ↔ WasMoved s k := by
    intro k
    unfold WasMoved
    rw [hnext, hgranted]
  refine h.advance hthreads hitems hvars hprogress hlast (fun _ k _ _ => hmoved k) (fun k _ => hmoved k) hfits
    (fun r hr => hinside r (ht ▸ hr)) hseen ?_
  rintro ⟨v, k, cpu, -, hv⟩
  exact ⟨hnext, fun r prev hp => hspin r prev hp v k cpu hv⟩

theorem answers_wait (htickets : Tickets s) (h : Answers s) {r : Request} (ht : s.threads t = .sleeping r)
    (hawake : s.lock.cpuSleepVars r.cpu = true) :
    Answers ({ s with lock := s.lock.wait r.cpu }.to t (.answered r)) := by
  have hfits := h.fits t
  rw [ht] at hfits
  have hwoken : s.progress r.cpu = .woken := by
    rcases hfits with ⟨-, hasleep, -⟩ | ⟨hwoken, -⟩
    · rw [hasleep] at hawake
      nomatch hawake
    · exact hwoken
  have hvar : (s.lock.wait r.cpu).cpuSleepVars r.cpu = false := Function.update_self ..
  refine h.change (c := r.cpu) rfl ⟨fun _ _ => rfl, fun _ _ => rfl, fun _ _ => rfl,
    fun cpu hcpu => Function.update_of_ne hcpu ..⟩ (fun _ _ _ _ _ => Iff.rfl) ⟨Or.inr hwoken, hvar⟩
    (fun u r' hut hu hcpu => ?_) (fun r' hr' => Or.inl ?_) ⟨h.counter r.cpu, fun _ => hvar, fun _ => ?_, h.last r.cpu⟩
    fun v m cpu hv u r' prev hu => ?_
  · exact absurd (htickets.cpus u t r' r hu (congrArg Phase.inside ht) hcpu) hut
  · rw [ht] at hr'
    exact hr'
  · exact ⟨t, r, by rw [State.to_self]; rfl, rfl⟩
  · have hvt : v ≠ t := by
      rintro rfl
      have hself := hv.symm.trans (State.to_self ..)
      nomatch hself
    have hut : u ≠ t := by
      rintro rfl
      have hself := hu.symm.trans (State.to_self ..)
      nomatch hself
    exact h.popping v m cpu ((State.to_ne _ _ hvt).symm.trans hv) u r' prev
      ((State.to_ne _ _ hut).symm.trans hu)

theorem answers_receive (htickets : Tickets s) (h : Answers s) {r : Request} (ht : s.threads t = .answered r) :
    Answers ({ s with progress := Function.update s.progress r.cpu .idle }.to t
      (if (s.lock.items r.cpu).item.isRetry = true then .entered r
        else .served r (s.lock.items r.cpu).item (s.lock.items r.cpu).scheduledCount)) := by
  have hfits := h.fits t
  rw [ht] at hfits
  have hidle : Function.update s.progress r.cpu Progress.idle r.cpu = Progress.idle := Function.update_self ..
  have hlast := h.last r.cpu (Or.inr hfits.1)
  refine h.change (c := r.cpu) rfl ⟨fun _ _ => rfl, fun cpu hcpu => Function.update_of_ne hcpu .., fun _ _ => rfl,
    fun _ _ => rfl⟩ (fun _ _ _ _ _ => Iff.rfl) ?_ (fun u r' hut hu hcpu => ?_) (fun r' hr' => Or.inr ?_)
    ⟨h.counter r.cpu, fun _ => hfits.2, fun hne => absurd hidle hne, ?_⟩ fun v m cpu hv u r' prev hu => ?_
  · split
    · exact hidle
    · next hretry => exact ⟨hidle, hlast, eq_false_of_ne_true hretry⟩
  · exact absurd (htickets.cpus u t r' r hu (congrArg Phase.inside ht) hcpu) hut
  · rw [ht] at hr'
    obtain rfl := Option.some.inj hr'
    exact hidle
  · intro hprogress
    rcases hprogress with hno | hno | hno
    · nomatch hidle.symm.trans hno
    · nomatch hidle.symm.trans hno
    · nomatch hidle.symm.trans hno
  · have hvt : v ≠ t := by
      rintro rfl
      have hself := hv.symm.trans (State.to_self ..)
      split at hself
      · nomatch hself
      · nomatch hself
    have hut : u ≠ t := by
      rintro rfl
      have hself := hu.symm.trans (State.to_self ..)
      split at hself
      · nomatch hself
      · nomatch hself
    exact h.popping v m cpu ((State.to_ne _ _ hvt).symm.trans hv) u r' prev
      ((State.to_ne _ _ hut).symm.trans hu)

theorem answers_clientStep (htickets : Tickets s) (h : Answers s) {p : Phase α} (ht : s.threads t = p)
    {m : Move α} (hpromised : Promised s (t, m)) (hstep : clientStep s t p m = some s') : Answers s' := by
  have hfits := h.fits t
  rw [ht] at hfits
  cases p with
  | out =>
      cases m with
      | tryLock | lock =>
          obtain rfl := Option.some.inj hstep
          exact h.onward ht rfl rfl rfl rfl rfl rfl rfl trivial (by intros; contradiction) (fun _ _ h => by cases h) (by intros; contradiction)
      | enter r =>
          obtain ⟨-, heq⟩ := Option.ite_none_right_eq_some.mp hstep
          obtain rfl := Option.some.inj heq
          refine h.onward (q := .entered r) ht rfl rfl rfl rfl rfl rfl rfl ?_ (by intros; contradiction) (fun _ _ h => by cases h) (by intros; contradiction)
          by_contra hbusy
          obtain ⟨u, r', hu, hcpu⟩ := h.client r.cpu hbusy
          exact hpromised u r' hu hcpu
      | _ => cases hstep
  | tried k =>
      cases m with
      | tryTicket =>
          simp only [clientStep] at hstep
          split at hstep
          · obtain rfl := Option.some.inj hstep
            exact h.onward ht rfl rfl rfl rfl rfl rfl rfl trivial (by intros; contradiction) (fun _ _ h => by cases h) (by intros; contradiction)
          · obtain rfl := Option.some.inj hstep
            exact h.onward ht rfl rfl rfl rfl rfl rfl rfl trivial (by intros; contradiction) (fun _ _ h => by cases h) (by intros; contradiction)
      | _ => cases hstep
  | turn k =>
      cases m with
      | tryHead fails =>
          simp only [clientStep] at hstep
          split at hstep
          · obtain rfl := Option.some.inj hstep
            exact h.onward ht rfl rfl rfl rfl rfl rfl rfl trivial (by intros; contradiction) (fun _ _ h => by cases h) (by intros; contradiction)
          · obtain rfl := Option.some.inj hstep
            exact h.onward ht rfl rfl rfl rfl rfl rfl rfl trivial (by intros; contradiction) (fun _ _ h => by cases h) (by intros; contradiction)
      | _ => cases hstep
  | locking k =>
      cases m with
      | lockPass =>
          obtain ⟨-, heq⟩ := Option.ite_none_right_eq_some.mp hstep
          obtain rfl := Option.some.inj heq
          exact h.onward ht rfl rfl rfl rfl rfl rfl rfl trivial (by intros; contradiction) (fun _ _ h => by cases h) (by intros; contradiction)
      | _ => cases hstep
  | entered r =>
      cases m with
      | sample =>
          obtain rfl := Option.some.inj hstep
          exact h.onward (q := .sampled r _) ht rfl rfl rfl rfl rfl rfl rfl ⟨hfits, rfl⟩ (fun _ => Or.inl) (fun _ _ h => by cases h) (by intros; contradiction)
      | _ => cases hstep
  | sampled r prev =>
      cases m with
      | take =>
          obtain rfl := Option.some.inj hstep
          exact h.onward (q := .ticketed r prev _) ht rfl rfl rfl rfl rfl rfl rfl hfits (fun _ => Or.inl) (fun _ _ h => by cases h) (by intros; contradiction)
      | _ => cases hstep
  | ticketed r prev k =>
      cases m with
      | register =>
          obtain rfl := Option.some.inj hstep
          refine h.onward (q := .spinning r prev k) ht rfl rfl rfl rfl rfl rfl rfl
            ⟨fun hmoved => absurd hmoved (htickets.not_wasMoved ht), fun _ => hfits⟩ (fun _ => Or.inl) (fun _ _ h => by cases h)
            fun r' prev' hp v m cpu hv => ?_
          -- the ticket that is being moved has been registered before
          obtain ⟨-, -, rfl⟩ := Phase.spinning.inj hp
          obtain ⟨⟨u, r'', prev'', hu, -, -⟩, -⟩ := htickets.sees v m _ hv
          obtain rfl := htickets.unique u t _ (congrArg Phase.ticket hu) (congrArg Phase.ticket ht)
          rw [ht] at hu
          cases hu
      | _ => cases hstep
  | spinning r prev k =>
      cases m with
      | pass =>
          obtain ⟨-, heq⟩ := Option.ite_none_left_eq_some.mp hstep
          obtain rfl := Option.some.inj heq
          exact h.onward (q := .passed r prev k) ht rfl rfl rfl rfl rfl rfl rfl hfits (fun _ => Or.inl) (fun _ _ h => by cases h) (by intros; contradiction)
      | _ => cases hstep
  | passed r prev k =>
      cases m with
      | acquire =>
          simp only [clientStep] at hstep
          split at hstep
          · next hne =>
              obtain rfl := Option.some.inj hstep
              exact answers_acquire htickets h ht hne
          · next heq =>
              obtain rfl := Option.some.inj hstep
              have hstands := htickets.stands t
              rw [ht] at hstands
              exact h.onward (q := .polling r prev) ht rfl rfl rfl rfl rfl rfl rfl
                (hfits.1 ⟨hstands.1, hstands.2.mp (not_not.mp heq)⟩) (fun _ => Or.inl) (fun _ _ h => by cases h) (by intros; contradiction)
      | _ => cases hstep
  | polling r prev =>
      cases m with
      | poll =>
          simp only [clientStep] at hstep
          split at hstep
          · cases hstep
          · next hsignal =>
              split at hstep
              · next hsleep =>
                  obtain rfl := Option.some.inj hstep
                  refine h.onward (q := .sleeping r) ht rfl rfl rfl rfl rfl rfl rfl ?_ (fun _ => Or.inl) (fun _ _ h => by cases h) (by intros; contradiction)
                  cases hfits with
                  | moved progress signal awake flags => exact absurd signal hsignal
                  | asleep progress signal sleep awake flags => exact Or.inl ⟨progress, awake, flags⟩
                  | served progress signal sleep awake =>
                      rw [sleep] at hsleep
                      cases hsleep
                  | woken progress signal sleep awake => exact Or.inr ⟨progress, awake⟩
              · next hsleep =>
                  obtain rfl := Option.some.inj hstep
                  refine h.onward (q := .answered r) ht rfl rfl rfl rfl rfl rfl rfl ?_ (fun _ => Or.inl) (fun _ _ h => by cases h) (by intros; contradiction)
                  cases hfits with
                  | moved progress signal awake flags => exact absurd signal hsignal
                  | asleep progress signal sleep awake flags => exact absurd sleep hsleep
                  | served progress signal sleep awake => exact ⟨Or.inl progress, awake⟩
                  | woken progress signal sleep awake => exact absurd sleep hsleep
      | _ => cases hstep
  | sleeping r =>
      cases m with
      | wait =>
          obtain ⟨hawake, heq⟩ := Option.ite_none_right_eq_some.mp hstep
          obtain rfl := Option.some.inj heq
          exact answers_wait htickets h ht hawake
      | _ => cases hstep
  | answered r =>
      cases m with
      | receive =>
          obtain rfl := Option.some.inj hstep
          exact answers_receive htickets h ht
      | _ => cases hstep
  | served r item count =>
      cases m with
      | leave =>
          obtain rfl := Option.some.inj hstep
          refine h.onward (q := .out) ht rfl rfl rfl rfl rfl rfl rfl trivial (fun r' hr' => Or.inr ?_) (fun _ _ h => by cases h) (by intros; contradiction)
          obtain rfl := Option.some.inj hr'
          exact hfits.1
      | _ => cases hstep
  | holding k seen => cases hstep

/-! ## The server -/

/-- The thread that waits with the ticket that is about to be moved -/
structure Owner (s : State ι α) (c : Nat) (v : ι) (r : Request) (prev : BitVec 31) : Prop where
  thread : s.threads v = .spinning r prev s.lock.next
  cpu : r.cpu = c
  slot : (s.lock.waitqueue (s.lock.id s.lock.next)).cpu = ⟨r.flags, s.lock.next + c⟩

omit [DecidableEq ι] in
theorem Owner.waits {cpu : Nat} {v : ι} {r : Request} {prev : BitVec 31} (h : Answers s) (hv : Owner s cpu v r prev) :
    Waits s r prev := by
  have hfits := h.fits v
  rw [hv.thread] at hfits
  exact hfits.2 fun hmoved => Nat.lt_irrefl _ hmoved.1

omit [DecidableEq ι] in
theorem Owner.eq_of_cpu {cpu : Nat} {v : ι} {r r' : Request} {prev : BitVec 31} (htickets : Tickets s)
    (hv : Owner s cpu v r prev) (hu : (s.threads u).inside = some r') (hcpu : r'.cpu = cpu) : u = v :=
  htickets.cpus u v r' r hu (congrArg Phase.inside hv.thread) (hcpu.trans hv.cpu.symm)

theorem answers_transfer (htickets : Tickets s) (h : Answers s) {cpu : Nat}
    (ht : s.threads t = .holding k (.front cpu)) :
    Answers ({ s with lock := s.lock.transfer cpu }.to t (.holding k (.popping cpu))) := by
  obtain ⟨v, r, prev, hv, hcpu, hslot⟩ := htickets.sees t k _ ht
  have howner : Owner s cpu v r prev := ⟨hv, hcpu, hslot⟩
  have hwaits := howner.waits h
  have hitem : (s.lock.transfer cpu).items cpu = { s.lock.items cpu with
      flags := (s.lock.waitqueue (s.lock.id s.lock.next)).cpu.flags, ticket := s.lock.next } :=
    Function.update_self ..
  have hflags : ((s.lock.transfer cpu).items cpu).flags = r.flags := by
    rw [hitem]
    exact congrArg NodeCpu.flags hslot
  have hvt : v ≠ t := by
    rintro rfl
    rw [ht] at hv
    nomatch hv
  refine h.change (c := cpu) rfl ⟨fun _ hne => Function.update_of_ne hne .., fun _ _ => rfl, fun _ _ => rfl,
    fun _ _ => rfl⟩ (fun _ _ _ _ _ => Iff.rfl) trivial (fun u r' hut hu hr' => ?_) (fun r' hr' => ?_)
    (h.itemOk ((congrArg Item.signal hitem).trans rfl) ((congrArg Item.next hitem).trans rfl)
      ((congrArg Item.item hitem).trans rfl) ((congrArg Item.scheduledCount hitem).trans rfl) rfl rfl rfl fun _ => ?_)
    fun w m c hw u r' prev' hu => ?_
  · -- the owner of the ticket still waits
    obtain rfl := howner.eq_of_cpu htickets hu hr'
    rw [hv]
    refine ⟨fun hmoved => absurd hmoved.1 (Nat.lt_irrefl _), fun _ => ⟨hwaits.progress, ?_⟩⟩
    rw [hcpu]
    refine ((congrArg (fun i => i.signal.signalCnt) hitem).trans ?_)
    rw [← hwaits.signal, hcpu]
  · rw [ht] at hr'
    nomatch hr'
  · exact ⟨v, r, by rw [State.to_ne _ _ hvt]; exact congrArg Phase.inside hv, hcpu⟩
  · by_cases hwt : w = t
    · subst hwt
      obtain ⟨-, hpop⟩ := Phase.holding.inj (hw.symm.trans (State.to_self ..))
      obtain rfl := Seen.popping.inj hpop
      have hut : u ≠ w := by
        rintro rfl
        nomatch hu.symm.trans hw
      have hu : s.threads u = .spinning r' prev' s.lock.next := (State.to_ne _ _ hut).symm.trans hu
      obtain rfl := htickets.unique u v _ (congrArg Phase.ticket hu) (congrArg Phase.ticket hv)
      obtain ⟨rfl, -, -⟩ := Phase.spinning.inj (hu.symm.trans hv)
      exact hflags
    · have hw : s.threads w = .holding m (.popping c) := (State.to_ne _ _ hwt).symm.trans hw
      exact absurd (htickets.holding_unique ht hw) hwt

theorem answers_popfront (htickets : Tickets s) (h : Answers s) {cpu : Nat}
    (ht : s.threads t = .holding k (.popping cpu)) (log : List (Nat × Fate)) :
    Answers ({ s with
      lock := dtlockPopfront s.lock
      log := log
      progress := Function.update s.progress cpu .moved
      last := Function.update s.last cpu none }.to t (.holding k .nothing)) := by
  obtain ⟨⟨v, r, prev, hv, hcpu, hslot⟩, -⟩ := htickets.sees t k _ ht
  have howner : Owner s cpu v r prev := ⟨hv, hcpu, hslot⟩
  have hwaits := howner.waits h
  have hmoved : Function.update s.progress cpu Progress.moved cpu = Progress.moved := Function.update_self ..
  have hvt : v ≠ t := by
    rintro rfl
    rw [ht] at hv
    nomatch hv
  refine h.change (c := cpu) rfl ⟨fun _ _ => rfl, fun _ hne => Function.update_of_ne hne ..,
    fun _ hne => Function.update_of_ne hne .., fun _ _ => rfl⟩ (fun u m hut hm hu => ?_) trivial
    (fun u r' hut hu hr' => ?_) (fun r' hr' => ?_)
    ⟨h.counter cpu, fun hidle => (nomatch hmoved.symm.trans hidle), fun _ => ?_, fun hdone => ?_⟩
    fun w m c hw u r' prev' hu => ?_
  · -- no other thread has the ticket that is moved
    have hne : m ≠ s.lock.next := by
      rintro rfl
      obtain rfl := htickets.unique u v _ hm (congrArg Phase.ticket hv)
      exact hu r (congrArg Phase.inside hv) hcpu
    show m < s.lock.next + 1 ∧ m ≠ s.granted ↔ m < s.lock.next ∧ m ≠ s.granted
    refine and_congr_left fun _ => ⟨fun hlt => ?_, Nat.lt_succ_of_lt⟩
    omega
  · obtain rfl := howner.eq_of_cpu htickets hu hr'
    rw [hv]
    refine ⟨fun _ => ?_, fun hnot => absurd ⟨Nat.lt_succ_self _, Nat.ne_of_gt htickets.granted_lt⟩ hnot⟩
    refine .moved ?_ hwaits.signal (h.awake _ hwaits.progress) ?_
    · rw [hcpu]
      exact hmoved
    · rw [hcpu]
      exact h.popping t k cpu ht _ r prev hv
  · rw [ht] at hr'
    nomatch hr'
  · exact ⟨v, r, by rw [State.to_ne _ _ hvt]; exact congrArg Phase.inside hv, hcpu⟩
  · rcases hdone with hno | hno | hno
    · nomatch hmoved.symm.trans hno
    · nomatch hmoved.symm.trans hno
    · nomatch hmoved.symm.trans hno
  · by_cases hwt : w = t
    · subst hwt
      nomatch hw.symm.trans (State.to_self ..)
    · have hw : s.threads w = .holding m (.popping c) := (State.to_ne _ _ hwt).symm.trans hw
      exact absurd (htickets.holding_unique ht hw) hwt

/-- The item of a CPU after an answer -/
theorem serve_item (l : Lock α) (cpu : Nat) (item : Answer α) (count : Nat) (signal : SignalKind) :
    let i := (dtlockServe l cpu item count signal).items cpu
    i.item = item ∧ i.scheduledCount = count ∧ i.flags = (l.items cpu).flags
      ∧ (signal = .wake → i.signal = (l.items cpu).signal ∧ i.next = (l.items cpu).next)
      ∧ (signal ≠ .wake → i.signal = ⟨signal = .sleep, i.next.setWidth 31⟩ ∧ i.next = (l.items cpu).next + 1) := by
  unfold dtlockServe Lock.setItem
  by_cases hwake : signal = .wake
  · simp [hwake]
  · simp [hwake]

theorem serve_vars (l : Lock α) (cpu : Nat) (item : Answer α) (count : Nat) (signal : SignalKind) :
    (dtlockServe l cpu item count signal).cpuSleepVars cpu
      = if signal = .wake then true else l.cpuSleepVars cpu := by
  unfold dtlockServe
  by_cases hwake : signal = .wake
  · simp [hwake]
  · simp [hwake, Lock.setItem]

theorem serve_elsewhere (l : Lock α) (cpu : Nat) (item : Answer α) (count : Nat) (signal : SignalKind) (c : Nat)
    (hc : c ≠ cpu) : (dtlockServe l cpu item count signal).items c = l.items c
      ∧ (dtlockServe l cpu item count signal).cpuSleepVars c = l.cpuSleepVars c := by
  unfold dtlockServe Lock.setItem
  by_cases hwake : signal = .wake
  · simp [hwake, hc]
  · simp [hwake, hc]

theorem serve_next (l : Lock α) (cpu : Nat) (item : Answer α) (count : Nat) (signal : SignalKind) :
    (dtlockServe l cpu item count signal).next = l.next := by
  unfold dtlockServe Lock.setItem
  by_cases hwake : signal = .wake
  · simp [hwake]
  · simp [hwake]

/-- The state after an answer -/
def State.served (s : State ι α) (cpu : Nat) (item : Answer α) (count : Nat) (signal : SignalKind) : State ι α :=
  { s with
    lock := dtlockServe s.lock cpu item count signal
    progress := Function.update s.progress cpu signal.progress
    last := Function.update s.last cpu (some (item, count)) }

section Serve

variable {cpu : Nat} {item : Answer α} {count : Nat} {signal : SignalKind}

omit [DecidableEq ι] in
theorem served_progress : (s.served cpu item count signal).progress cpu = signal.progress :=
  Function.update_self ..

omit [DecidableEq ι] in
theorem served_last : (s.served cpu item count signal).last cpu = some (item, count) := Function.update_self ..

omit [DecidableEq ι] in
theorem Delegated.serve {r : Request} {prev : BitVec 31} (hadmits : (s.progress r.cpu).Admits signal)
    (hcounter : (s.lock.items r.cpu).signal.signalCnt ≠ ((s.lock.items r.cpu).next + 1).setWidth 31)
    (h : Delegated s r prev) : Delegated (s.served r.cpu item count signal) r prev := by
  obtain ⟨-, -, hflags, hwake, hother⟩ := serve_item s.lock r.cpu item count signal
  have hvars := serve_vars s.lock r.cpu item count signal
  have hprogress : (s.served r.cpu item count signal).progress r.cpu = signal.progress := served_progress
  cases h with
  | moved progress sampled awake flags =>
      rw [progress] at hadmits
      have hnew : signal ≠ .wake →
          ((dtlockServe s.lock r.cpu item count signal).items r.cpu).signal.signalCnt ≠ prev := by
        intro hne
        rw [(hother hne).1, (hother hne).2]
        exact fun heq => hcounter (sampled.trans heq.symm)
      cases signal with
      | default =>
          refine .served hprogress (hnew (by decide)) ?_ ?_
          · exact congrArg Signal.sleep (hother (by decide)).1
          · rw [← awake]
            exact hvars
      | sleep =>
          refine .asleep hprogress (hnew (by decide)) ?_ ?_ (hflags.trans flags)
          · exact congrArg Signal.sleep (hother (by decide)).1
          · rw [← awake]
            exact hvars
      | wake => exact hadmits.elim
  | asleep progress sampled sleep awake flags =>
      rw [progress] at hadmits
      cases signal with
      | default | sleep => exact hadmits.elim
      | wake =>
          have hsignal := (hwake rfl).1
          refine .woken hprogress ?_ ?_ hvars
          · rw [State.served, hsignal]
            exact sampled
          · rw [State.served, hsignal]
            exact sleep
  | served progress sampled sleep awake =>
      rw [progress] at hadmits
      exact hadmits.elim
  | woken progress sampled sleep awake =>
      rw [progress] at hadmits
      exact hadmits.elim

omit [DecidableEq ι] in
theorem Fits.serve {p : Phase α} {r : Request} (hr : p.inside = some r)
    (hadmits : (s.progress r.cpu).Admits signal)
    (hcounter : (s.lock.items r.cpu).signal.signalCnt ≠ ((s.lock.items r.cpu).next + 1).setWidth 31)
    (h : Fits s p) : Fits (s.served r.cpu item count signal) p := by
  have hbusy : s.progress r.cpu ≠ .idle := by
    intro hidle
    rw [hidle] at hadmits
    exact hadmits
  have hmoved : ∀ k, WasMoved (s.served r.cpu item count signal) k ↔ WasMoved s k := by
    intro k
    unfold WasMoved State.served
    dsimp only
    rw [serve_next]
  cases p with
  | entered r' =>
      obtain rfl := Option.some.inj hr
      exact absurd h hbusy
  | sampled r' prev | ticketed r' prev k =>
      obtain rfl := Option.some.inj hr
      exact absurd h.progress hbusy
  | spinning r' prev k | passed r' prev k =>
      obtain rfl := Option.some.inj hr
      refine ⟨fun hm => (h.1 ((hmoved k).mp hm)).serve hadmits hcounter, fun hm => ?_⟩
      exact absurd (h.2 fun hm' => hm ((hmoved k).mpr hm')).progress hbusy
  | polling r' prev =>
      obtain rfl := Option.some.inj hr
      exact Delegated.serve hadmits hcounter h
  | sleeping r' =>
      obtain rfl := Option.some.inj hr
      rcases h with ⟨hp, -, -⟩ | ⟨hp, -⟩
      · rw [hp] at hadmits
        cases signal with
        | default | sleep => exact hadmits.elim
        | wake => exact Or.inr ⟨served_progress, serve_vars s.lock _ item count .wake⟩
      · rw [hp] at hadmits
        exact hadmits.elim
  | answered r' =>
      obtain rfl := Option.some.inj hr
      rcases h.1 with hp | hp
      · rw [hp] at hadmits
        exact hadmits.elim
      · rw [hp] at hadmits
        exact hadmits.elim
  | served r' item' count' =>
      obtain rfl := Option.some.inj hr
      exact absurd h.1 hbusy
  | out | tried k | turn k | locking k | holding k seen => nomatch hr

theorem answers_serve (htickets : Tickets s) (h : Answers s) {seen : Seen} (ht : s.threads t = .holding k seen)
    (hseen : seen.isPopping = false) (hadmits : (s.progress cpu).Admits signal) :
    Answers (s.served cpu item count signal) := by
  have hitem := serve_item s.lock cpu item count signal
  have helse := serve_elsewhere s.lock cpu item count signal
  have hbusy : s.progress cpu ≠ .idle := by
    intro hidle
    rw [hidle] at hadmits
    exact hadmits
  refine h.change (t := t) (q := .holding k seen) (c := cpu) ?_ ⟨fun c hc => (helse c hc).1,
    fun c hc => Function.update_of_ne hc .., fun c hc => Function.update_of_ne hc .., fun c hc => (helse c hc).2⟩
    (fun u m _ _ _ => ?_) trivial (fun u r _ hu hcpu => ?_) (fun r hr => ?_) ⟨?_, fun hidle => ?_, fun _ => h.client cpu hbusy,
      fun _ => ?_⟩ fun v m c hv => ?_
  · exact (ht ▸ Function.update_eq_self t s.threads).symm
  · unfold WasMoved State.served
    dsimp only
    rw [serve_next]
  · subst hcpu
    exact (h.fits u).serve hu hadmits (h.counter _)
  · rw [ht] at hr
    nomatch hr
  · show ((dtlockServe s.lock cpu item count signal).items cpu).signal.signalCnt ≠ _
    by_cases hwake : signal = .wake
    · obtain ⟨hsignal, hnext⟩ := hitem.2.2.2.1 hwake
      rw [State.served, hsignal, hnext]
      exact h.counter cpu
    · obtain ⟨hsignal, -⟩ := hitem.2.2.2.2 hwake
      rw [State.served, hsignal]
      exact counter_of_serve _
  · rw [served_progress] at hidle
    cases signal with
    | default | sleep | wake => nomatch hidle
  · rw [served_last]
    show _ = some (((dtlockServe s.lock cpu item count signal).items cpu).item, _)
    rw [State.served, hitem.1, hitem.2.1]
  · have hv : s.threads v = .holding m (.popping c) := hv
    obtain rfl := htickets.holding_unique ht hv
    rw [ht] at hv
    obtain ⟨-, rfl⟩ := Phase.holding.inj hv
    nomatch hseen

end Serve

theorem answers_holderStep (htickets : Tickets s) (h : Answers s) {seen : Seen}
    (ht : s.threads t = .holding k seen) {m : Move α} (hpromised : Promised s (t, m))
    (hstep : holderStep s t k seen m = some s') : Answers s' := by
  have hholder : ∀ v m cpu, v ≠ t → s.threads v ≠ .holding m (.popping cpu) := fun v m cpu hvt hv =>
    hvt (htickets.holding_unique ht hv)
  cases m with
  | empty =>
      obtain ⟨-, heq⟩ := Option.ite_none_left_eq_some.mp hstep
      obtain rfl := Option.some.inj heq
      refine h.onward ht rfl rfl rfl rfl rfl rfl rfl trivial nofun (fun k' cpu hp => ?_) nofun
      obtain ⟨-, hpop⟩ := Phase.holding.inj hp
      split at hpop
      · nomatch hpop
      · nomatch hpop
  | front =>
      obtain ⟨-, heq⟩ := Option.ite_none_right_eq_some.mp hstep
      obtain rfl := Option.some.inj heq
      exact h.onward ht rfl rfl rfl rfl rfl rfl rfl trivial nofun nofun nofun
  | transfer =>
      cases seen with
      | front cpu =>
          obtain rfl := Option.some.inj hstep
          exact answers_transfer htickets h ht
      | nothing | waiter | popping cpu => nomatch hstep
  | popfront =>
      cases seen with
      | popping cpu =>
          obtain rfl := Option.some.inj hstep
          exact answers_popfront htickets h ht _
      | nothing | waiter | front cpu => nomatch hstep
  | serve cpu item count signal =>
      obtain ⟨hpop, heq⟩ := Option.ite_none_left_eq_some.mp hstep
      obtain ⟨-, heq⟩ := Option.ite_none_right_eq_some.mp heq
      obtain rfl := Option.some.inj heq
      exact answers_serve htickets h ht (eq_false_of_ne_true hpop) hpromised
  | unlock =>
      obtain ⟨-, heq⟩ := Option.ite_none_left_eq_some.mp hstep
      obtain rfl := Option.some.inj heq
      have hk : k = s.granted := by
        have hstands := htickets.stands t
        rw [ht] at hstands
        exact hstands
      refine h.advance (q := .out) rfl rfl rfl rfl rfl (fun u m hut hu => ?_) nofun trivial
        (fun r hr => ?_) nofun ?_
      · have hm : m ≠ s.granted := by
          rintro rfl
          exact hut (htickets.unique u t _ hu (by rw [ht, hk]; rfl))
        show m < s.lock.next + 1 ∧ m ≠ s.lock.next ↔ m < s.lock.next ∧ m ≠ s.granted
        omega
      · rw [ht] at hr
        nomatch hr
      · rintro ⟨v, m, cpu, hvt, hv⟩
        exact absurd hv (hholder v m cpu hvt)
  | _ => nomatch hstep

theorem answers_step {a : ι × Move α} (htickets : Tickets s) (hpromised : Promised s a)
    (hstep : step s a = some s') (h : Answers s) : Answers s' := by
  obtain ⟨t, m⟩ := a
  unfold step at hstep
  dsimp only at hstep
  split at hstep
  · next k seen ht => exact answers_holderStep htickets h ht hpromised hstep
  · exact answers_clientStep htickets h rfl hpromised hstep

/-! ## Runs -/

/-- An answer is there, and has not been received. -/
def State.outstanding (s : State ι α) (cpu : Nat) : Nat :=
  if s.progress cpu = .served ∨ s.progress cpu = .woken then 1 else 0

/-- The last answer to a request, which may be the only one, is given to `cpu`. -/
def answersFor (cpu : Nat) (_ : State ι α) : ι × Move α → Nat
  | (_, .serve c _ _ signal) => if c = cpu ∧ signal ≠ .sleep then 1 else 0
  | _ => 0

/-- A thread receives the answer for `cpu`. -/
def receivedFor (cpu : Nat) (s : State ι α) : ι × Move α → Nat
  | (t, .receive) =>
      match s.threads t with
      | .answered r => if r.cpu = cpu then 1 else 0
      | _ => 0
  | _ => 0

/-- What the clients get -/
structure Answered (s : State ι α) : Prop where
  /-- What is returned is the last answer for the request, and no retry. -/
  returned : ∀ t r item count, s.threads t = .served r item count →
    s.last r.cpu = some (item, count) ∧ item.isRetry = false
  /-- The loop over the signal ends when there is an answer, and not before. -/
  polling : ∀ t r prev, s.threads t = .polling r prev →
    ((s.lock.items r.cpu).signal.signalCnt ≠ prev ↔ s.progress r.cpu ≠ .moved)
      ∧ ((s.lock.items r.cpu).signal.signalCnt ≠ prev →
        ((s.lock.items r.cpu).signal.sleep = true ↔ s.progress r.cpu = .asleep ∨ s.progress r.cpu = .woken))
  sleeping : ∀ t r, s.threads t = .sleeping r →
    (s.lock.cpuSleepVars r.cpu = true ↔ s.progress r.cpu = .woken)
  /-- The answer that is read is the last one. -/
  answered : ∀ t r, s.threads t = .answered r →
    s.last r.cpu = some ((s.lock.items r.cpu).item, (s.lock.items r.cpu).scheduledCount)
  /-- While a request is pending, its flags are in the item. -/
  flags : ∀ cpu, s.progress cpu = .moved ∨ s.progress cpu = .asleep →
    ∃ t r, (s.threads t).inside = some r ∧ r.cpu = cpu ∧ (s.lock.items cpu).flags = r.flags

omit [DecidableEq ι] in
theorem Answers.answered (h : Answers s) : Answered s where
  returned t r item count ht := by
    have hfits := h.fits t
    rw [ht] at hfits
    exact hfits.2
  polling t r prev ht := by
    have hfits := h.fits t
    rw [ht] at hfits
    cases hfits with
    | moved progress signal awake flags =>
        exact ⟨iff_of_false (fun hne => hne signal) fun hne => hne progress, fun hne => absurd signal hne⟩
    | asleep progress signal sleep awake flags =>
        exact ⟨iff_of_true signal (by rw [progress]; decide), fun _ => iff_of_true sleep (Or.inl progress)⟩
    | served progress signal sleep awake =>
        refine ⟨iff_of_true signal (by rw [progress]; decide), fun _ => iff_of_false ?_ ?_⟩
        · rw [sleep]
          decide
        · rw [progress]
          decide
    | woken progress signal sleep awake =>
        exact ⟨iff_of_true signal (by rw [progress]; decide), fun _ => iff_of_true sleep (Or.inr progress)⟩
  sleeping t r ht := by
    have hfits := h.fits t
    rw [ht] at hfits
    rcases hfits with ⟨hp, ha, -⟩ | ⟨hp, ha⟩
    · rw [hp, ha]
      decide
    · rw [hp, ha]
      decide
  answered t r ht := by
    have hfits := h.fits t
    rw [ht] at hfits
    exact h.last r.cpu (Or.inr hfits.1)
  flags cpu hpending := by
    have hbusy : s.progress cpu ≠ .idle := by
      rintro hidle
      rw [hidle] at hpending
      rcases hpending with hno | hno
      · nomatch hno
      · nomatch hno
    obtain ⟨t, r, hr, rfl⟩ := h.client cpu hbusy
    refine ⟨t, r, hr, rfl, ?_⟩
    have hfits := h.fits t
    have hdelegated : ∀ {prev}, Delegated s r prev → (s.lock.items r.cpu).flags = r.flags := by
      intro prev hd
      cases hd with
      | moved progress signal awake flags => exact flags
      | asleep progress signal sleep awake flags => exact flags
      | served progress signal sleep awake =>
          rw [progress] at hpending
          simp at hpending
      | woken progress signal sleep awake =>
          rw [progress] at hpending
          simp at hpending
    cases hp : s.threads t with
    | entered r' =>
        rw [hp] at hr hfits
        obtain rfl := Option.some.inj hr
        exact absurd hfits hbusy
    | sampled r' prev | ticketed r' prev k =>
        rw [hp] at hr hfits
        obtain rfl := Option.some.inj hr
        exact absurd hfits.progress hbusy
    | spinning r' prev k | passed r' prev k =>
        rw [hp] at hr hfits
        obtain rfl := Option.some.inj hr
        by_cases hm : WasMoved s k
        · exact hdelegated (hfits.1 hm)
        · exact absurd (hfits.2 hm).progress hbusy
    | polling r' prev =>
        rw [hp] at hr hfits
        obtain rfl := Option.some.inj hr
        exact hdelegated hfits
    | sleeping r' =>
        rw [hp] at hr hfits
        obtain rfl := Option.some.inj hr
        rcases hfits with ⟨-, -, hf⟩ | ⟨hw, -⟩
        · exact hf
        · rw [hw] at hpending
          simp at hpending
    | answered r' =>
        rw [hp] at hr hfits
        obtain rfl := Option.some.inj hr
        rcases hfits.1 with hw | hw
        · rw [hw] at hpending
          simp at hpending
        · rw [hw] at hpending
          simp at hpending
    | served r' item count =>
        rw [hp] at hr hfits
        obtain rfl := Option.some.inj hr
        exact absurd hfits.1 hbusy
    | out | tried k | turn k | locking k | holding k seen =>
        rw [hp] at hr
        nomatch hr

omit [DecidableEq ι] in
theorem outstanding_congr {cpu : Nat} (h : s'.progress = s.progress) : s'.outstanding cpu = s.outstanding cpu := by
  unfold State.outstanding
  rw [h]

omit [DecidableEq ι] in
theorem receivedFor_of_ne {cpu : Nat} {m : Move α} (hm : m ≠ .receive) : receivedFor cpu s (t, m) = 0 := by
  cases m with
  | receive => exact absurd rfl hm
  | _ => rfl

omit [DecidableEq ι] in
theorem answersFor_of_ne {cpu : Nat} {m : Move α} (hm : ∀ c item count signal, m ≠ .serve c item count signal) :
    answersFor cpu s (t, m) = 0 := by
  cases m with
  | serve c item count signal => exact absurd rfl (hm c item count signal)
  | _ => rfl

/-- The steps of the clients that do not receive leave the progress alone. -/
theorem clientStep_progress {p : Phase α} {m : Move α} (hm : m ≠ .receive) (hstep : clientStep s t p m = some s') :
    s'.progress = s.progress := by
  revert hstep
  fun_cases clientStep s t p m <;> intro hstep
  all_goals first
    | contradiction
    | exact absurd rfl hm
    | (obtain rfl := Option.some.inj hstep
       rfl)

/-- An answer is there after the step if it was there before, and has not
been received, or has been given. -/
theorem outstanding_step {a : ι × Move α} (htickets : Tickets s) (h : Answers s) (hpromised : Promised s a)
    (hstep : step s a = some s') (cpu : Nat) :
    s'.outstanding cpu + receivedFor cpu s a = s.outstanding cpu + answersFor cpu s a := by
  obtain ⟨t, m⟩ := a
  unfold step at hstep
  dsimp only at hstep
  split at hstep
  · next k seen ht =>
      have hreceived : receivedFor cpu s (t, m) = 0 := by
        cases m with
        | receive => nomatch hstep
        | _ => rfl
      rw [hreceived]
      cases m with
      | popfront =>
          cases seen with
          | popping c =>
              obtain rfl := Option.some.inj hstep
              obtain ⟨⟨v, r, prev, hv, hc, hslot⟩, -⟩ := htickets.sees t k _ ht
              have hidle := (Owner.waits h ⟨hv, hc, hslot⟩).progress
              rw [hc] at hidle
              show (if _ then 1 else 0) = if _ then 1 else 0
              by_cases heq : cpu = c
              · subst heq
                rw [hidle]
                exact if_congr (by rw [State.to]; simp) rfl rfl
              · exact if_congr (by rw [State.to]; simp [heq]) rfl rfl
          | nothing | waiter | front c => nomatch hstep
      | serve c item count signal =>
          obtain ⟨-, heq⟩ := Option.ite_none_left_eq_some.mp hstep
          obtain ⟨-, heq⟩ := Option.ite_none_right_eq_some.mp heq
          obtain rfl := Option.some.inj heq
          have hadmits : (s.progress c).Admits signal := hpromised
          by_cases hc : c = cpu
          · subst hc
            have hzero : s.outstanding c = 0 := by
              refine if_neg ?_
              rintro (hp | hp)
              · rw [hp] at hadmits
                exact hadmits
              · rw [hp] at hadmits
                exact hadmits
            rw [hzero]
            cases signal <;> simp [State.outstanding, answersFor, SignalKind.progress]
          · simp [State.outstanding, answersFor, hc, Ne.symm hc]
      | empty =>
          obtain ⟨-, heq⟩ := Option.ite_none_left_eq_some.mp hstep
          obtain rfl := Option.some.inj heq
          rfl
      | front =>
          obtain ⟨-, heq⟩ := Option.ite_none_right_eq_some.mp hstep
          obtain rfl := Option.some.inj heq
          rfl
      | transfer =>
          cases seen with
          | front c =>
              obtain rfl := Option.some.inj hstep
              rfl
          | nothing | waiter | popping c => nomatch hstep
      | unlock =>
          obtain ⟨-, heq⟩ := Option.ite_none_left_eq_some.mp hstep
          obtain rfl := Option.some.inj heq
          rfl
      | _ => nomatch hstep
  · by_cases hm : m = .receive
    · subst hm
      cases ht : s.threads t with
      | answered r =>
          rw [ht] at hstep
          obtain rfl := Option.some.inj hstep
          have hfits := h.fits t
          rw [ht] at hfits
          show _ + (match s.threads t with | .answered r => if r.cpu = cpu then 1 else 0 | _ => 0) = _ + 0
          rw [ht]
          dsimp only
          by_cases hc : r.cpu = cpu
          · subst hc
            have hone : s.outstanding r.cpu = 1 := if_pos hfits.1
            rw [hone, if_pos rfl]
            simp [State.outstanding, State.to]
          · simp [State.outstanding, State.to, hc, Ne.symm hc]
      | _ =>
          rw [ht] at hstep
          nomatch hstep
    · have hserve : ∀ c item count signal, m ≠ .serve c item count signal := by
        rintro c item count signal rfl
        cases ht : s.threads t <;> (rw [ht] at hstep; nomatch hstep)
      rw [receivedFor_of_ne hm, answersFor_of_ne hserve, outstanding_congr (clientStep_progress hm hstep)]

theorem answers_run {size : Nat} (hpos : 0 < size) {memory : Nat → BitVec 32} (hzero : ∀ cpu, memory cpu = 0)
    {moves : List (ι × Move α)} (hpromised : Along step Promised (init size memory) moves)
    (hrun : run step (init size memory) moves = some s') : Tickets s' ∧ Answers s' :=
  invariant_along (I := fun s => Tickets s ∧ Answers s)
    (fun _ _ _ hp hstep hinv => ⟨tickets_step hp hstep hinv.1, answers_step hinv.1 hp hstep hinv.2⟩) hpromised hrun
    ⟨tickets_init hpos memory, answers_init hzero⟩

/-- Each call that is served returns the last answer for its request, and
every request that is answered for good is received once. -/
theorem delegation_answered (size : Nat) (hpos : 0 < size) (memory : Nat → BitVec 32)
    (hzero : ∀ cpu, memory cpu = 0) (moves : List (ι × Move α))
    (hpromised : Along step Promised (init size memory) moves)
    (hrun : run step (init size memory) moves = some s') :
    Answered s' ∧ ∀ cpu, s'.outstanding cpu + tally step (receivedFor cpu) (init size memory) moves
      = tally step (answersFor cpu) (init size memory) moves := by
  refine ⟨(answers_run hpos hzero hpromised hrun).2.answered, fun cpu => ?_⟩
  have haccount := tally_account (I := fun s => Tickets s ∧ Answers s) (fun s => s.outstanding cpu)
    (fun _ _ _ hp hstep hinv => ⟨tickets_step hp hstep hinv.1, answers_step hinv.1 hp hstep hinv.2⟩)
    (fun _ _ _ hp hstep hinv => outstanding_step hinv.1 hinv.2 hp hstep cpu) hpromised hrun
    ⟨tickets_init hpos memory, answers_init hzero⟩
  exact haccount.trans (Nat.zero_add _)

/-- A request is put to sleep before its thread looks, and woken up with a task. -/
def servedWaiter : List (Bool × Move Unit) :=
  movedWaiter ++ [(false, .serve 1 .null 0 .sleep), (true, .pass), (true, .acquire), (true, .poll),
    (false, .serve 1 (.task ()) 3 .wake), (true, .wait), (true, .receive)]

theorem servedWaiter_answered :
    ∃ s', run step (init 2 (fun _ => 0)) servedWaiter = some s' ∧ Answered s' ∧
      ∀ cpu, s'.outstanding cpu + tally step (receivedFor cpu) (init 2 (fun _ => 0)) servedWaiter
        = tally step (answersFor cpu) (init 2 (fun _ => 0)) servedWaiter := by
  have hrun : (run step (init 2 (fun _ => 0)) servedWaiter).isSome := by decide
  obtain ⟨s', hs'⟩ := Option.isSome_iff_exists.mp hrun
  exact ⟨s', hs', delegation_answered 2 (by decide) (fun _ => 0) (fun _ => rfl) servedWaiter (by decide) hs'⟩

end DtLock

end Nosv
