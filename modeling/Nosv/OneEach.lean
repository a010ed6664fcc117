import Nosv.ImmediateSlot

/-!
# One thread for a task, and one to wake a thread

What `Sound` says of the tasks and the threads themselves, after every run
of the threads of all processes: an ordinary task is on the stack of one
thread or carried from one place to where it goes on, and a thread that is
about to block is woken by one other thread.
-/

namespace Nosv

open Places Run

namespace Crew

variable {s : Crew} {t : TaskId} {w v : WorkerId} {cpus : Nat} {hcpus : 0 < cpus}

/-- Where a task is while nobody executes it and the scheduler does not
have it: in a slot, in the hands of a thread, in a handle, on its way to a
delegate or in its hands. -/
def Carries (s : Crew) (t : TaskId) : Part → Prop
  | .worker w => (s.worker w).immediateSuccessor = some t ∨ (s.worker w).pc.handle = some t
      ∨ (s.worker w).given = some t
  | .process p => (s.process p).delegate.handle = some t
      ∨ ∃ e ∈ (s.process p).threadCreationQueue.toList, e.handle = some t
  | .job _ => False

/-- Of every ordinary task and of every thread there is only one. -/
structure OneEach (s : Crew) : Prop where
  /-- it is on the stack of one thread -/
  stack : ∀ w v t, (s.job t).parallel = false → t ∈ (s.worker w).stack → t ∈ (s.worker v).stack → w = v
  once : ∀ w, (s.worker w).stack.Nodup
  /-- it is carried from one place, and then nowhere else -/
  carried : ∀ c d t, (s.job t).parallel = false → s.Carries t c → s.Carries t d → c = d
  apart : ∀ w t, (s.job t).parallel = false →
    ((s.worker w).immediateSuccessor = some t → (s.worker w).pc.handle ≠ some t ∧ (s.worker w).given ≠ some t)
    ∧ ((s.worker w).pc.handle = some t → (s.worker w).given ≠ some t)
  flight : ∀ c t, (s.job t).parallel = false → s.Carries t c → (s.job t).place = .flight
  /-- what is on the stack of a thread that has not blocked is carried nowhere -/
  runs : ∀ w t, (s.job t).parallel = false → (s.worker w).pc.resting = false → t ∈ (s.worker w).stack →
    (s.job t).place = .running
  /-- a thread is woken by one thread, and only if it is about to block -/
  wakes : ∀ w v u, (s.worker w).pc.wakes = some u → (s.worker v).pc.wakes = some u → w = v
  rests : ∀ w u, (s.worker w).pc.wakes = some u → (s.worker u).pc.resting = true ∧ (s.worker u).signaled = false
    ∧ ∀ p, u ∉ (s.process p).idleThreads

theorem Carries.token {c : Part} (hpar : (s.job t).parallel = false) (hc : s.Carries t c) : Token.job t ∈ s.hold c := by
  have htoken : ∀ {o : Option TaskId}, o = some t → Token.job t ∈ s.jobToken o :=
    fun ho => mem_jobToken.mpr ⟨ho, hpar⟩
  cases c with
  | worker w =>
      simp only [hold, workerTokens, Multiset.mem_add]
      rcases hc with hslot | hhand | hgiven
      · have := htoken hslot
        tauto
      · have := htoken hhand
        tauto
      · have := htoken hgiven
        tauto
  | process p =>
      simp only [hold, processTokens, Multiset.mem_add]
      rcases hc with hdelegate | ⟨e, he, hhandle⟩
      · exact Or.inr (htoken hdelegate)
      · refine Or.inl (Or.inr ?_)
        have hle : s.jobToken e.handle
            ≤ ((s.process p).threadCreationQueue.toList.map fun e => s.jobToken e.handle).sum :=
          List.single_le_sum (fun _ _ => Multiset.zero_le _) _ (List.mem_map_of_mem he)
        exact Multiset.mem_of_le hle (htoken hhandle)
  | job u => exact hc.elim

/-- A thread has the task in one of the three ways. -/
theorem Sound.apart (h : s.Sound) (hpar : (s.job t).parallel = false) :
    ((s.worker w).immediateSuccessor = some t → (s.worker w).pc.handle ≠ some t ∧ (s.worker w).given ≠ some t)
    ∧ ((s.worker w).pc.handle = some t → (s.worker w).given ≠ some t) := by
  have hcount := Multiset.nodup_iff_count_le_one.mp (h.distinct.nodup (.worker w)) (.job t)
  have hone : (s.jobToken (some t)).count (.job t) = 1 := by simp [jobToken, hpar]
  simp only [hold, workerTokens, Multiset.count_add] at hcount
  refine ⟨fun hslot => ⟨fun hhand => ?_, fun hgiven => ?_⟩, fun hhand hgiven => ?_⟩
  · rw [hslot, hhand, hone] at hcount
    omega
  · rw [hslot, hgiven, hone] at hcount
    omega
  · rw [hhand, hgiven, hone] at hcount
    omega

theorem wakes_token (hw : (s.worker w).pc.wakes = some v) : Token.wake v ∈ s.hold (.worker w) := by
  simp [hold, workerTokens, hw]

theorem Sound.wakes_rest (h : s.Sound) (hw : (s.worker w).pc.wakes = some v) :
    (s.worker v).pc.resting = true ∧ (s.worker v).signaled = false ∧ ∀ p, v ∉ (s.process p).idleThreads := by
  have htoken := wakes_token hw
  have hcount := Multiset.nodup_iff_count_le_one.mp (h.distinct.nodup (.worker w)) (.wake v)
  refine ⟨?_, ?_, fun p hidle => ?_⟩
  · by_contra hup
    have hup : (s.worker v).pc.resting = false := eq_false_of_ne_true hup
    have heq := h.distinct.inj htoken (j := .worker v) (wake_mem_of_up hup)
    obtain rfl := Part.worker.inj heq
    simp [hold, workerTokens, hw, hup] at hcount
    omega
  · by_contra hsig
    have hsig : (s.worker v).signaled = true := eq_true_of_ne_false hsig
    have heq := h.distinct.inj htoken (j := .worker v) (by simp [hold, workerTokens, hsig])
    obtain rfl := Part.worker.inj heq
    simp [hold, workerTokens, hw, hsig] at hcount
  · have heq := h.distinct.inj htoken (j := .process p) (by simp [hold, processTokens, hidle])
    cases heq

theorem Sound.oneEach (h : s.Sound) : s.OneEach where
  stack w v t hpar hw hv :=
    Option.some.inj (((h.worker w).owns t hw hpar).symm.trans ((h.worker v).owns t hv hpar))
  once w := (h.worker w).nodup
  carried c d t hpar hc hd := h.distinct.inj (hc.token hpar) (hd.token hpar)
  flight c t hpar hc := by
    refine h.flight (hc.token hpar) (fun heq => ?_) hpar
    rw [heq] at hc
    exact hc
  apart w t hpar := h.apart hpar
  runs w t hpar hup ht := h.running hup ht hpar
  wakes w v u hw hv := Part.worker.inj (h.distinct.inj (wakes_token hw) (wakes_token hv))
  rests w u hw := h.wakes_rest hw

/-- Whatever the threads of all processes do, as long as no blocking count
of an ordinary task wraps around, an ordinary task is executed by one
thread or carried from one place, and a thread is woken by one. -/
theorem one_each {ms : List CrewMove} (hfits : Along (step cpus hcpus) Fitting (init cpus hcpus) ms)
    (hrun : run (step cpus hcpus) (init cpus hcpus) ms = some s) : s.OneEach :=
  (reached_run hfits hrun reached_init).sound.oneEach

/-- Worker 0 has got the task of an attached thread and wakes the thread. -/
theorem one_each_woken : ∃ s, run (step 1 Nat.one_pos) (init 1 Nat.one_pos) (attachRun.take 11) = some s
    ∧ (s.worker 0).pc.wakes = some 1 ∧ s.OneEach := by
  have hran : (run (step 1 Nat.one_pos) (init 1 Nat.one_pos) (attachRun.take 11)).map (fun s => (s.worker 0).pc.wakes)
      = some (some 1) := by decide +kernel
  obtain ⟨s, hs, hwakes⟩ := Option.map_eq_some_iff.mp hran
  exact ⟨s, hs, hwakes, one_each (by decide +kernel) hs⟩

end Crew

end Nosv
