import Nosv.DeadlineWake

/-!
# The invariant of the deadline tasks

What holds between any two atomic operations of the waiters, the wakers
and the server: every task is where its place says (`Placing`), and the
woken tasks in the trees are covered (`Inv.counted`). Nearly every step
moves one task; `Moved` says how the containers change when one does, and
the two parts of the invariant are carried over such a move once, for all
the steps.

During a purge the covering has to be stated twice. Of the requests that
the purge has loaded, the ones it has spent are owed back; and the woken
tasks it has already passed are covered without the loaded requests
(`WalkOk.visited`), since they were woken after it looked at them.
-/

namespace Nosv

open RBTree Places

/-! ## The invariant -/

/-- What the place of a task says about its descriptor. -/
def WaitPlace.Ok (k : Task) : WaitPlace → Prop
  | .idle | .running | .ready =>
      k.deadline = 0 ∧ (k.deadlineState = .none ∨ k.deadlineState = .ready)
  | .lapsing => k.deadlineState = .ready
  | .submitting => k.deadline ≠ 0 ∧ (k.deadlineState = .pending ∨ k.deadlineState = .ready)
  | .queued =>
      (k.deadline = 0 ∧ (k.deadlineState = .none ∨ k.deadlineState = .ready)) ∨
        (k.deadline ≠ 0 ∧ (k.deadlineState = .pending ∨ k.deadlineState = .ready))
  | .stored => k.deadlineState = .waiting ∨ k.deadlineState = .ready
  | .held => True

namespace Waits

/-- Every task is where its place says. -/
structure Placing (s : Waits) : Prop where
  queues : s.queues.Nodup
  nodup : ∀ p, (s.stored p).Nodup
  member : ∀ p t, t ∈ s.stored p ↔ p = s.pid t ∧ s.place t = .stored
  scheduled : ∀ t, s.place t = .stored → s.pid t ∈ s.queues
  readyNodup : s.ready.Nodup
  ready : ∀ t, t ∈ s.ready ↔ s.place t = .ready
  held : ∀ t, s.place t = .held ↔ s.server.held = some t
  placeOk : ∀ t, (s.place t).Ok (s.task t)
  early : ∀ t, s.early t = true → s.state t = .ready ∧ s.place t ≠ .stored ∧
    (s.place t = .held → s.server = .lapsed t)

/-- During a purge that was called for `count` requests. -/
structure PurgeOk (s : Waits) (count : Nat) : Prop where
  le : count ≤ s.purge
  calm : s.calm = true → s.transit = [] ∧ s.purge = count
  due : ∀ t ∈ s.due, s.place t = .stored → s.state t = .ready

/-- In the loop of a purge: a woken task that it has passed was woken
since, so that its request is not among the `count`. -/
structure WalkOk (s : Waits) (todo : List TaskId) (left count : Nat) : Prop where
  purge : s.PurgeOk count
  pos : 0 < left
  le : left ≤ count
  nodup : todo.Nodup
  stored : ∀ t ∈ todo, s.place t = .stored
  visited : s.countStored (fun t => s.state t = .ready ∧ t ∉ todo) + count
    ≤ s.purge + s.transit.length

def ServerOk (s : Waits) : Prop :=
  match s.server with
  | .idle => True
  | .inserting t => s.pid t ∈ s.queues ∧ (s.state t = .waiting ∨ s.state t = .ready)
  | .expiring t => s.state t = .waiting ∨ s.state t = .ready
  | .lapsed t => s.state t = .ready
  | .walking todo left count => s.WalkOk todo left count
  | .removing t todo left count => s.state t = .ready ∧ s.WalkOk todo left count
  | .purged count => s.PurgeOk count

/-- The requests that the server has spent, or is going to owe. -/
def owed (s : Waits) : Int :=
  match s.server with
  | .inserting t => if s.state t = .ready then 1 else 0
  | .walking _ left count => count - left
  | .removing _ _ left count => count - left + 1
  | .purged count => count
  | _ => 0

/-- The tasks that the server has taken out of a tree and that are still in
`scheduler->tasks`. -/
def outside (s : Waits) : Int :=
  match s.server with
  | .expiring _ | .removing _ _ _ _ => 1
  | _ => 0

structure Inv (s : Waits) : Prop where
  placing : s.Placing
  server : s.ServerOk
  tasks : s.countStored (fun _ => True) + s.ready.length + s.outside = s.tasks
  counted : s.readyStored + s.owed ≤ s.purge + s.transit.length

/-! ## Counting in the trees -/

variable {s s' : Waits} {t : TaskId}

theorem Placing.distinct (h : s.Placing) : Distinct s.stored :=
  ⟨h.nodup, fun {p q u} hp hq => by rw [((h.member p u).mp hp).1, ((h.member q u).mp hq).1]⟩

theorem countStored_nonneg (P : TaskId → Prop) [DecidablePred P] : 0 ≤ s.countStored P :=
  weight_nonneg fun _ _ t _ => by split <;> omega

theorem countStored_le (P : TaskId → Prop) [DecidablePred P] :
    s.countStored P ≤ s.countStored fun _ => True :=
  weight_mono fun _ _ t _ => by split <;> simp

theorem countStored_congr {P Q : TaskId → Prop} [DecidablePred P] [DecidablePred Q]
    (h : s.Placing) (hPQ : ∀ t, s.place t = .stored → (P t ↔ Q t)) :
    s.countStored P = s.countStored Q :=
  weight_congr fun p _ t ht => if_congr (hPQ t ((h.member p t).mp ht).2) rfl rfl

/-- The trees with `t` in them and without it. -/
theorem countStored_add {P Q : TaskId → Prop} [DecidablePred P] [DecidablePred Q]
    (h : s'.Placing) (hqueues : s'.queues = s.queues) (hp : s'.pid t ∈ s.queues)
    (hstored : s'.stored = add s.stored (s'.pid t) t) (hPQ : ∀ u, u ≠ t → (P u ↔ Q u)) :
    s'.countStored P = (if P t then 1 else 0) + s.countStored Q := by
  have habsent : Absent s.stored t := (hstored ▸ h.distinct).of_add.2
  unfold countStored
  rw [hqueues, hstored, weight_add (List.mem_toFinset.mpr hp)]
  congr 1
  refine weight_congr fun p _ u hu => if_congr (hPQ u ?_) rfl rfl
  rintro rfl
  exact habsent p hu

/-- A task in the trees that begins to satisfy the condition. -/
theorem countStored_update {P Q : TaskId → Prop} [DecidablePred P] [DecidablePred Q]
    (h : s.Placing) (ht : s.place t = .stored) (hP : ¬ P t) (hQ : Q t)
    (hoff : ∀ u, u ≠ t → (P u ↔ Q u)) : s.countStored Q = s.countStored P + 1 := by
  obtain ⟨g, hg⟩ := exists_add ((h.member (s.pid t) t).mpr ⟨rfl, ht⟩)
  have habsent : Absent g t := (hg ▸ h.distinct).of_add.2
  have hmem := List.mem_toFinset.mpr (h.scheduled t ht)
  unfold countStored
  rw [hg, weight_add hmem, weight_add hmem, if_pos hQ, if_neg hP, zero_add, add_comm]
  congr 1
  refine weight_congr fun p _ u hu => if_congr (hoff u ?_).symm rfl rfl
  rintro rfl
  exact habsent p hu

/-! ## The trees -/

theorem stored_removeDeadline (h : s.Placing) (ht : s.place t = .stored) :
    s.stored = add (s.removeDeadline t).stored (s.pid t) t := by
  have hin : t ∈ inorder (s.tree (s.pid t)) :=
    Multiset.mem_coe.mp ((h.member (s.pid t) t).mpr ⟨rfl, ht⟩)
  obtain ⟨l, r, hbefore, hafter⟩ := inorder_remove hin
  funext p
  by_cases hp : p = s.pid t
  · subst hp
    rw [add_self]
    simp only [stored, removeDeadline, Function.update_self, hbefore, hafter, Multiset.cons_coe]
    exact Multiset.coe_eq_coe.mpr List.perm_middle
  · rw [add_ne hp]
    simp only [stored, removeDeadline, Function.update_of_ne hp]

/-- What the retry loop leaves: the task is in its tree, with some
deadline. -/
theorem insertDeadline_spec : ∀ {n : Nat} {s s' : Waits}, s.insertDeadline t n = some s' →
    ∃ d tree, s' = { s with tree := tree
                            task := Function.update s.task t { s.task t with deadline := d } }
      ∧ s'.stored = add s.stored (s.pid t) t
  | 0, _, _, h => by cases h
  | n + 1, s, s', h => by
      rw [insertDeadline] at h
      split at h
      · rename_i tree htree
        obtain rfl := Option.some.inj h
        obtain ⟨l, r, hbefore, hafter⟩ := inorder_insert htree
        refine ⟨(s.task t).deadline, Function.update s.tree (s.pid t) tree, ?_, ?_⟩
        · simp
        · funext p
          by_cases hp : p = s.pid t
          · subst hp
            rw [add_self]
            simp only [stored, Function.update_self, hbefore, hafter, Multiset.cons_coe]
            exact Multiset.coe_eq_coe.mpr List.perm_middle
          · rw [add_ne hp]
            simp only [stored, Function.update_of_ne hp]
      · obtain ⟨d, tree, heq, hstored⟩ := insertDeadline_spec h
        refine ⟨d, tree, ?_, ?_⟩
        · rw [heq]
          simp
        · rw [hstored]
          simp only [pid, Function.update_self]
          rfl

/-! ## Moves of one task -/

/-- Task `t` goes to place `pl`, and nothing else moves. -/
structure Moved (s s' : Waits) (t : TaskId) (pl : WaitPlace) : Prop where
  place : s'.place = Function.update s.place t pl
  others : ∀ u, u ≠ t → s'.task u = s.task u ∧ s'.early u = s.early u
  pid : s'.pid t = s.pid t
  queues : s'.queues = s.queues
  trees : (s.place t = .stored ∧ pl ≠ .stored ∧ s.stored = add s'.stored (s.pid t) t) ∨
    (s.place t ≠ .stored ∧ pl = .stored ∧ s'.stored = add s.stored (s.pid t) t) ∨
    (s.place t ≠ .stored ∧ pl ≠ .stored ∧ s'.stored = s.stored)
  ready : (s.place t = .ready ∧ pl ≠ .ready ∧ s'.ready = s.ready.erase t) ∨
    (s.place t ≠ .ready ∧ pl = .ready ∧ s'.ready = t :: s.ready) ∨
    (s.place t ≠ .ready ∧ pl ≠ .ready ∧ s'.ready = s.ready)
  held : (s.place t = .held ∧ pl ≠ .held ∧ s'.server.held = none) ∨
    (s.server.held = none ∧ pl = .held ∧ s'.server.held = some t) ∨
    (s.place t ≠ .held ∧ pl ≠ .held ∧ s'.server = s.server)

namespace Moved

variable {pl : WaitPlace}

theorem place_self (hm : Moved s s' t pl) : s'.place t = pl := by
  rw [hm.place, Function.update_self]

theorem place_ne (hm : Moved s s' t pl) {u : TaskId} (hu : u ≠ t) : s'.place u = s.place u := by
  rw [hm.place, Function.update_of_ne hu]

theorem state_ne (hm : Moved s s' t pl) {u : TaskId} (hu : u ≠ t) : s'.state u = s.state u := by
  rw [state, (hm.others u hu).1, state]

theorem pid_eq (hm : Moved s s' t pl) (u : TaskId) : s'.pid u = s.pid u := by
  by_cases hu : u = t
  · rw [hu, hm.pid]
  · rw [Waits.pid, (hm.others u hu).1, Waits.pid]

/-- A task that has moved is in the trees if its place says so. -/
theorem mem_stored (hm : Moved s s' t pl) (h : s.Placing) (p : Nat) (u : TaskId) :
    u ∈ s'.stored p ↔ p = s'.pid u ∧ s'.place u = .stored := by
  rw [hm.pid_eq]
  have hmem := h.member p u
  by_cases hu : u = t
  · subst hu
    rw [hm.place_self]
    rcases hm.trees with ⟨-, hpl, hadd⟩ | ⟨hnot, hpl, hadd⟩ | ⟨hnot, hpl, heq⟩
    · have habsent : Absent s'.stored u := (hadd ▸ h.distinct).of_add.2
      simp [habsent p, hpl]
    · rw [hadd, mem_add, hmem]
      simp [hnot, hpl]
    · rw [heq, hmem]
      simp [hnot, hpl]
  · rw [hm.place_ne hu, ← hmem]
    rcases hm.trees with ⟨-, -, hadd⟩ | ⟨-, -, hadd⟩ | ⟨-, -, heq⟩
    · rw [hadd, mem_add]
      simp [hu]
    · rw [hadd, mem_add]
      simp [hu]
    · rw [heq]

theorem nodup_stored (hm : Moved s s' t pl) (h : s.Placing) (p : Nat) : (s'.stored p).Nodup := by
  rcases hm.trees with ⟨-, -, hadd⟩ | ⟨hnot, -, hadd⟩ | ⟨-, -, heq⟩
  · exact (hadd ▸ h.distinct).of_add.1.nodup p
  · rw [hadd]
    refine (h.distinct.add (fun q hq => hnot ((h.member q t).mp hq).2) (s.pid t)).nodup p
  · rw [heq]
    exact h.nodup p

theorem mem_ready (hm : Moved s s' t pl) (h : s.Placing) (u : TaskId) :
    u ∈ s'.ready ↔ s'.place u = .ready := by
  have hmem := h.ready u
  by_cases hu : u = t
  · subst hu
    rw [hm.place_self]
    rcases hm.ready with ⟨-, hpl, heq⟩ | ⟨-, hpl, heq⟩ | ⟨hnot, hpl, heq⟩
    · simp [heq, h.readyNodup.mem_erase_iff, hpl]
    · simp [heq, hpl]
    · simp [heq, hmem, hnot, hpl]
  · rw [hm.place_ne hu, ← hmem]
    rcases hm.ready with ⟨-, -, heq⟩ | ⟨-, -, heq⟩ | ⟨-, -, heq⟩
    · rw [heq, List.mem_erase_of_ne hu]
    · simp [heq, hu]
    · rw [heq]

theorem nodup_ready (hm : Moved s s' t pl) (h : s.Placing) : s'.ready.Nodup := by
  rcases hm.ready with ⟨-, -, heq⟩ | ⟨hnot, -, heq⟩ | ⟨-, -, heq⟩
  · rw [heq]
    exact h.readyNodup.erase t
  · rw [heq, List.nodup_cons]
    exact ⟨fun hin => hnot ((h.ready t).mp hin), h.readyNodup⟩
  · rw [heq]
    exact h.readyNodup

theorem held_iff (hm : Moved s s' t pl) (h : s.Placing) (u : TaskId) :
    s'.place u = .held ↔ s'.server.held = some u := by
  have hheld := h.held u
  by_cases hu : u = t
  · subst hu
    rw [hm.place_self]
    rcases hm.held with ⟨-, hpl, heq⟩ | ⟨-, hpl, heq⟩ | ⟨hnot, hpl, heq⟩
    · simp [hpl, heq]
    · simp [hpl, heq]
    · rw [heq, ← hheld]
      simp [hnot, hpl]
  · rw [hm.place_ne hu, hheld]
    rcases hm.held with ⟨hin, -, heq⟩ | ⟨hnone, -, heq⟩ | ⟨-, -, heq⟩
    · rw [(h.held t).mp hin, heq]
      simp [Ne.symm hu]
    · rw [hnone, heq]
      simp [Ne.symm hu]
    · rw [heq]

theorem placing (hm : Moved s s' t pl) (h : s.Placing) (hok : pl.Ok (s'.task t))
    (hsched : pl = .stored → s.pid t ∈ s.queues)
    (hearly : s'.early t = true → s'.state t = .ready ∧ pl ≠ .stored ∧
      (pl = .held → s'.server = .lapsed t)) : s'.Placing where
  queues := hm.queues ▸ h.queues
  nodup := hm.nodup_stored h
  member := hm.mem_stored h
  scheduled := fun u hu => by
    rw [hm.pid_eq, hm.queues]
    by_cases hut : u = t
    · subst hut
      exact hsched (hm.place_self ▸ hu)
    · exact h.scheduled u (hm.place_ne hut ▸ hu)
  readyNodup := hm.nodup_ready h
  ready := hm.mem_ready h
  held := hm.held_iff h
  placeOk := fun u => by
    by_cases hut : u = t
    · subst hut
      rw [hm.place_self]
      exact hok
    · rw [hm.place_ne hut, (hm.others u hut).1]
      exact h.placeOk u
  early := fun u hu => by
    by_cases hut : u = t
    · subst hut
      rw [hm.place_self]
      exact hearly hu
    · rw [(hm.others u hut).2] at hu
      obtain ⟨hstate, hnot, hheld⟩ := h.early u hu
      rw [hm.state_ne hut, hm.place_ne hut]
      refine ⟨hstate, hnot, fun hin => ?_⟩
      -- the server holds `u`, so it does not move `t`
      have hsome := (h.held u).mp hin
      rcases hm.held with ⟨ht, -, -⟩ | ⟨hnone, -, -⟩ | ⟨-, -, heq⟩
      · rw [(h.held t).mp ht] at hsome
        exact absurd (Option.some.inj hsome).symm hut
      · rw [hnone] at hsome
        cases hsome
      · rw [heq]
        exact hheld hin

theorem count (hm : Moved s s' t pl) (h : s.Placing) (h' : s'.Placing) {P Q : TaskId → Prop}
    [DecidablePred P] [DecidablePred Q] (hPQ : ∀ u, u ≠ t → (P u ↔ Q u)) :
    s'.countStored Q + (if s.place t = .stored ∧ P t then 1 else 0)
      = s.countStored P + (if pl = .stored ∧ Q t then 1 else 0) := by
  rcases hm.trees with ⟨hin, hpl, hadd⟩ | ⟨hnot, hpl, hadd⟩ | ⟨hnot, hpl, heq⟩
  · have hcount := countStored_add h hm.queues.symm (hm.queues ▸ h.scheduled t hin) hadd hPQ
    simp only [hin, hpl, true_and, false_and, if_false]
    omega
  · have hsched := h'.scheduled t (hm.place_self.trans hpl)
    rw [hm.queues] at hsched
    have hcount := countStored_add h' hm.queues hsched (hm.pid ▸ hadd)
      fun u hu => (hPQ u hu).symm
    simp only [hnot, hpl, true_and, false_and, if_false]
    omega
  · have hcount : s'.countStored Q = s.countStored P := by
      unfold countStored
      rw [hm.queues, heq]
      refine weight_congr fun p _ u hu => if_congr (hPQ u ?_).symm rfl rfl
      rintro rfl
      exact hnot ((h.member p u).mp hu).2
    simp only [hnot, hpl, false_and, if_false]
    omega

theorem ready_length (hm : Moved s s' t pl) (h : s.Placing) :
    s'.ready.length + (if s.place t = .ready then 1 else 0)
      = s.ready.length + (if pl = .ready then 1 else 0) := by
  rcases hm.ready with ⟨hin, hpl, heq⟩ | ⟨hnot, hpl, heq⟩ | ⟨hnot, hpl, heq⟩
  · have hmem := (h.ready t).mpr hin
    have hpos := List.length_pos_of_mem hmem
    rw [heq, List.length_erase_of_mem hmem, if_pos hin, if_neg hpl]
    omega
  · rw [heq, if_neg hnot, if_pos hpl, List.length_cons]
  · rw [heq, if_neg hnot, if_neg hpl]

/-- Outside the trees and the hands of the server, a move does not change
what is counted. -/
theorem count_outer (hm : Moved s s' t pl) (h : s.Placing) (h' : s'.Placing)
    (hfrom : s.place t ≠ .stored) (hto : pl ≠ .stored) {P Q : TaskId → Prop} [DecidablePred P]
    [DecidablePred Q] (hPQ : ∀ u, u ≠ t → (P u ↔ Q u)) : s'.countStored Q = s.countStored P := by
  have hcount := hm.count h h' hPQ
  simpa only [hfrom, hto, false_and, if_false, add_zero] using hcount

end Moved

/-- The requests and the wakers are as they were. -/
structure Quiet (s s' : Waits) : Prop where
  purge : s'.purge = s.purge
  transit : s'.transit = s.transit
  due : s'.due = s.due
  calm : s'.calm = s.calm

section Quiet

variable {pl : WaitPlace} {count : Nat}

theorem PurgeOk.quiet (h : s.PurgeOk count) (hm : Moved s s' t pl) (hq : Quiet s s')
    (hto : pl ≠ .stored) : s'.PurgeOk count := by
  refine ⟨hq.purge ▸ h.le, ?_, fun u hu hin => ?_⟩
  · rw [hq.calm, hq.transit, hq.purge]
    exact h.calm
  · have hut : u ≠ t := by
      rintro rfl
      exact hto (hm.place_self ▸ hin)
    rw [hm.state_ne hut]
    exact h.due u (hq.due ▸ hu) (hm.place_ne hut ▸ hin)

theorem WalkOk.quiet {todo : List TaskId} {left : Nat} (h : s.WalkOk todo left count)
    (hm : Moved s s' t pl) (hs : s.Placing) (hs' : s'.Placing) (hq : Quiet s s')
    (hfrom : s.place t ≠ .stored) (hto : pl ≠ .stored) : s'.WalkOk todo left count := by
  refine ⟨h.purge.quiet hm hq hto, h.pos, h.le, h.nodup, fun u hu => ?_, ?_⟩
  · have hut : u ≠ t := by
      rintro rfl
      exact hfrom (h.stored u hu)
    rw [hm.place_ne hut]
    exact h.stored u hu
  · rw [hm.count_outer hs hs' hfrom hto fun u hu => by rw [hm.state_ne hu], hq.purge, hq.transit]
    exact h.visited

/-- A move that neither the server nor a waker makes. -/
theorem Inv.quiet (h : s.Inv) (hm : Moved s s' t pl) (hs' : s'.Placing) (hq : Quiet s s')
    (hsame : s'.server = s.server) (hfrom : s.place t ≠ .stored ∧ s.place t ≠ .held) (hto : pl ≠ .stored ∧ pl ≠ .held)
    (htasks : (s'.ready.length : Int) - s'.tasks = s.ready.length - s.tasks) : s'.Inv := by
  have hstate : ∀ {u}, s.server.held = some u → s'.state u = s.state u := by
    intro u hu
    refine hm.state_ne ?_
    rintro rfl
    exact hfrom.2 ((h.placing.held u).mpr hu)
  have hserver : s'.ServerOk ∧ s'.owed = s.owed ∧ s'.outside = s.outside := by
    have hok := h.server
    unfold ServerOk owed outside
    unfold ServerOk at hok
    rw [hsame]
    cases hsv : s.server with
    | idle => exact ⟨trivial, rfl, rfl⟩
    | inserting u =>
        simp only [hsv] at hok ⊢
        rw [hstate (by rw [hsv]; rfl), hm.pid_eq, hm.queues]
        exact ⟨hok, rfl, trivial⟩
    | lapsed u | expiring u =>
        simp only [hsv] at hok ⊢
        rw [hstate (by rw [hsv]; rfl)]
        exact ⟨hok, trivial, trivial⟩
    | walking todo left count =>
        simp only [hsv] at hok ⊢
        exact ⟨hok.quiet hm h.placing hs' hq hfrom.1 hto.1, trivial, trivial⟩
    | removing u todo left count =>
        simp only [hsv] at hok ⊢
        rw [hstate (by rw [hsv]; rfl)]
        exact ⟨⟨hok.1, hok.2.quiet hm h.placing hs' hq hfrom.1 hto.1⟩, trivial, trivial⟩
    | purged count =>
        simp only [hsv] at hok ⊢
        exact ⟨hok.quiet hm hq hto.1, trivial, trivial⟩
  obtain ⟨hok, howed, houtside⟩ := hserver
  have hall := hm.count_outer h.placing hs' hfrom.1 hto.1 (P := fun _ => True) (Q := fun _ => True)
    fun _ _ => Iff.rfl
  have hready := hm.count_outer h.placing hs' hfrom.1 hto.1
    (P := fun u => s.state u = .ready) (Q := fun u => s'.state u = .ready)
    fun u hu => by rw [hm.state_ne hu]
  refine ⟨hs', hok, ?_, ?_⟩
  · have := h.tasks
    rw [hall, houtside]
    omega
  · have := h.counted
    unfold readyStored at this ⊢
    rw [hready, howed, hq.purge, hq.transit]
    exact this

end Quiet

end Waits

end Nosv
