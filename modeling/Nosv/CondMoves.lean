import Nosv.CondInv

/-!
# Signals and broadcasts keep the invariant

A step of a caller takes a task off a list (`Inv.signal_untimed`,
`Inv.takeTimed`), wakes the one it has taken (`Inv.wakes`), does both
(`Inv.spread`), or neither (`Inv.setCaller`). What the caller has yet to
wake is `CondCaller.rest`, and each of these steps accounts for the task
it deals with.
-/

namespace Nosv

open Run Ring

namespace Cond

variable {s s' : Cond} {spot : TaskId → Spot} {t u : TaskId} {c c' : Nat} {h : CondHook}

/-- The phases after task `u` has got descriptor `k` at place `sp`. -/
theorem Inv.phase_update {sp : Spot} {k : Sleeper} (hinv : s.Inv spot) (hok : (s.phase u).Ok sp k)
    (v : TaskId) : (s.phase v).Ok (Function.update spot u sp v) (Function.update s.sleeper u k v) := by
  by_cases hv : v = u
  · subst hv
    rw [Function.update_self, Function.update_self]
    exact hok
  · rw [Function.update_of_ne hv, Function.update_of_ne hv]
    exact hinv.phase v

/-- The same when the descriptors stay as they are. -/
theorem Inv.phase_move {sp : Spot} (hinv : s.Inv spot) (hok : (s.phase u).Ok sp (s.sleeper u))
    (v : TaskId) : (s.phase v).Ok (Function.update spot u sp v) (s.sleeper v) := by
  have := hinv.phase_update hok v
  rwa [Function.update_eq_self] at this

/-- A caller that is not in a broadcast has no list of its own. -/
theorem Inv.moved_nil (hinv : s.Inv spot) (hc : ¬ (s.caller c).Broadcasts) :
    s.members (.nonTimed c) = [] := by
  by_contra hne
  exact hc (hinv.moved c hne)

/-- A signal takes the oldest untimed waiter off its list. -/
theorem Inv.signal_untimed {l : List TaskId} (hinv : s.Inv spot) (hlock : s.lock = none)
    (hc : s.caller c = .idle) (hl : s.members .list = u :: l) :
    ∃ spot', (s.signal c).Inv spot' ∧ (s.signal c).members = Function.update s.members .list l
      ∧ (s.signal c).sleeper = s.sleeper := by
  have hin : u ∈ s.members .list := hl ▸ List.mem_cons_self
  have hon := (hinv.lists.on _ u).mp hin
  have hpop := pop_eq (s := s.begins c ((s.members .list ++ s.members .listTimed).take 1))
    (h := .list) hinv.lists (by simp)
  rw [show (s.begins c _).members .list = u :: l from hl] at hpop
  have hnil := hinv.moved_nil (c := c) (by rw [hc]; exact id)
  have hlists : CondLists (s.links.remove (.task u)) (Function.update s.members .list l)
      (Function.update spot u (.submitting c)) := by
    have := hinv.lists.take hin (fun h' => (by simp : Spot.submitting c ≠ .on h'))
    rwa [hl, List.erase_cons_head] at this
  have hnd : u ∉ l := by
    have hring := hinv.lists.isRing (h := .list) (by simp) (by simp [CondHook.Lasting])
    rw [hl] at hring
    exact (List.nodup_cons.mp (List.Nodup.of_map _ (List.nodup_cons.mp hring.nodup).2)).1
  have hhands : CondHands (Function.update s.caller c (.submitting u))
      (Function.update spot u (.submitting c)) := by
    refine hinv.hands.update (fun t b h => ?_) (fun c' b h => ?_) (fun t b h => ?_) fun c' b h => ?_
    · rw [hc] at h
      cases h
    · rw [hon] at h
      cases h
    · cases h
      exact ⟨rfl, rfl⟩
    · cases h
      exact ⟨rfl, rfl⟩
  have hother : ∀ c', c' ≠ c → Function.update s.caller c (.submitting u) c' = s.caller c' :=
    fun c' hc' => Function.update_of_ne hc' ..
  have hself : Function.update s.caller c (.submitting u) c = .submitting u := Function.update_self ..
  have hlocks : ∀ c', ¬ (Function.update s.caller c (.submitting u) c').Locks := by
    intro c'
    by_cases hc' : c' = c
    · subst hc'
      rw [hself]
      exact id
    · rw [hother c' hc']
      exact hinv.not_locks hlock c'
  unfold Cond.signal
  dsimp only
  rw [hpop]
  refine ⟨_, ⟨hlists, hhands, fun c' hne => ?_, fun c' => ?_, fun c' hc' => absurd hc' (hlocks c'),
    fun c' => ?_, fun v => ?_, hinv.phase_move ((hinv.phase u).untimed (Or.inl hon) ?_), hinv.sleeper⟩,
    rfl, rfl⟩
  · have hne : s.members (.nonTimed c') ≠ [] := hne
    have hc' : c' ≠ c := fun heq => hne (heq ▸ hnil)
    show (Function.update s.caller c (.submitting u) c').Broadcasts
    rw [hother c' hc']
    exact hinv.moved c' hne
  · show s.lock = some c' ↔ _
    rw [hlock]
    exact iff_of_false (by simp) (hlocks c')
  · show Function.update s.target c _ c' = Function.update s.woke c _ c' ++
      (Function.update s.caller c (.submitting u) c').rest (s.members .listTimed) (s.members (.nonTimed c'))
    by_cases hc' : c' = c
    · subst hc'
      rw [Function.update_self, Function.update_self, hself, hl]
      rfl
    · rw [Function.update_of_ne hc', Function.update_of_ne hc', hother c' hc']
      exact hinv.calls c'
  · show s.added v = Function.update s.taken u _ v + if v ∈ Function.update s.members .list l .list then 1 else 0
    have hcount := hinv.counts v
    rw [hl] at hcount
    rw [Function.update_self]
    by_cases hv : v = u
    · subst hv
      rw [if_pos List.mem_cons_self] at hcount
      rw [Function.update_self, if_neg hnd]
      exact hcount
    · rw [Function.update_of_ne hv, hcount]
      simp [hv]
  · exact Or.inr (Or.inr ⟨c, rfl⟩)

/-- A caller takes the oldest timed waiter off its list and keeps the
spinlock. -/
theorem Inv.takeTimed {l : List TaskId} {all : Bool} {target woke : Nat → List TaskId}
    (hinv : s.Inv spot) (hhand : (s.caller c).hand = none) (hfree : ∀ c', c' ≠ c → ¬ (s.caller c').Locks)
    (hl : s.members .listTimed = u :: l) (hall : (s.caller c).Broadcasts → all = true)
    (hlist : all = true → s.members .list = [])
    (hcalls : target c = woke c ++ (CondCaller.waking u all).rest l (s.members (.nonTimed c)))
    (hother : ∀ c', c' ≠ c → target c' = s.target c' ∧ woke c' = s.woke c') :
    Inv { s.setMembers .listTimed l (s.links.remove (.task u)) with
      caller := Function.update s.caller c (.waking u all), lock := some c, target := target, woke := woke }
      (Function.update spot u (.waking c)) := by
  have hin : u ∈ s.members .listTimed := hl ▸ List.mem_cons_self
  have hon := (hinv.lists.on _ u).mp hin
  have hlists : CondLists (s.links.remove (.task u)) (Function.update s.members .listTimed l)
      (Function.update spot u (.waking c)) := by
    have := hinv.lists.take hin (fun h' => (by simp : Spot.waking c ≠ .on h'))
    rwa [hl, List.erase_cons_head] at this
  have hhands : CondHands (Function.update s.caller c (.waking u all))
      (Function.update spot u (.waking c)) := by
    refine hinv.hands.update (fun t b h => ?_) (fun c' b h => ?_) (fun t b h => ?_) fun c' b h => ?_
    · rw [hhand] at h
      cases h
    · rw [hon] at h
      cases h
    · cases h
      exact ⟨rfl, rfl⟩
    · cases h
      exact ⟨rfl, rfl⟩
  have hne : ∀ c', c' ≠ c → Function.update s.caller c (.waking u all) c' = s.caller c' :=
    fun c' hc' => Function.update_of_ne hc' ..
  have hself : Function.update s.caller c (.waking u all) c = .waking u all := Function.update_self ..
  refine ⟨hlists, hhands, fun c' hmem => ?_, fun c' => ?_, fun c' hc' hb => ?_, fun c' => ?_,
    hinv.counts, hinv.phase_move ((hinv.phase u).timed (Or.inl hon) (Or.inr ⟨c, rfl⟩)), hinv.sleeper⟩
  · have hmem : s.members (.nonTimed c') ≠ [] := hmem
    show (Function.update s.caller c (.waking u all) c').Broadcasts
    by_cases hc' : c' = c
    · subst hc'
      rw [hself]
      exact hall (hinv.moved c' hmem)
    · rw [hne c' hc']
      exact hinv.moved c' hmem
  · show some c = some c' ↔ (Function.update s.caller c (.waking u all) c').Locks
    by_cases hc' : c' = c
    · subst hc'
      rw [hself]
      exact iff_of_true rfl trivial
    · rw [hne c' hc']
      exact iff_of_false (fun heq => hc' (Option.some.inj heq).symm) (hfree c' hc')
  · have hb : (Function.update s.caller c (.waking u all) c').Broadcasts := hb
    by_cases hc'' : c' = c
    · subst hc''
      rw [hself] at hb
      exact hlist hb
    · have hc' : (Function.update s.caller c (.waking u all) c').Locks := hc'
      rw [hne c' hc''] at hc'
      exact absurd hc' (hfree c' hc'')
  · show target c' = woke c' ++ (Function.update s.caller c (.waking u all) c').rest l
      (s.members (.nonTimed c'))
    by_cases hc' : c' = c
    · subst hc'
      rw [hself]
      exact hcalls
    · rw [hne c' hc', (hother c' hc').1, (hother c' hc').2, hinv.calls c']
      rw [CondCaller.rest_of_not_locks (hfree c' hc')]

/-- Caller `c` goes on, with nothing taken off a list and nobody woken. -/
theorem Inv.setCaller {q : CondCaller} {lock : Option Nat} (hinv : s.Inv spot)
    (hhand : (s.caller c).hand = none) (hq : q.hand = none)
    (hmoved : s.members (.nonTimed c) ≠ [] → q.Broadcasts) (hlock : lock = some c ↔ q.Locks)
    (hother : ∀ c', c' ≠ c → (lock = some c' ↔ s.lock = some c'))
    (hlist : q.Locks → q.Broadcasts → s.members .list = [])
    (hrest : q.rest (s.members .listTimed) (s.members (.nonTimed c))
      = (s.caller c).rest (s.members .listTimed) (s.members (.nonTimed c))) :
    Inv { s.setCaller c q with lock := lock } spot := by
  have hne : ∀ c', c' ≠ c → Function.update s.caller c q c' = s.caller c' := fun c' hc' =>
    Function.update_of_ne hc' ..
  have hself : Function.update s.caller c q c = q := Function.update_self ..
  refine ⟨hinv.lists, hinv.hands.resetCaller hhand hq, fun c' hmem => ?_, fun c' => ?_,
    fun c' hc' hb => ?_, fun c' => ?_, hinv.counts, hinv.phase, hinv.sleeper⟩
  · show (Function.update s.caller c q c').Broadcasts
    by_cases hc' : c' = c
    · subst hc'
      rw [hself]
      exact hmoved hmem
    · rw [hne c' hc']
      exact hinv.moved c' hmem
  · show lock = some c' ↔ (Function.update s.caller c q c').Locks
    by_cases hc' : c' = c
    · subst hc'
      rw [hself]
      exact hlock
    · rw [hne c' hc', hother c' hc']
      exact hinv.lock c'
  · have hlocks : (Function.update s.caller c q c').Locks := hc'
    have hb : (Function.update s.caller c q c').Broadcasts := hb
    by_cases hc' : c' = c
    · subst hc'
      rw [hself] at hlocks hb
      exact hlist hlocks hb
    · rw [hne c' hc'] at hlocks hb
      exact hinv.swept c' hlocks hb
  · show s.target c' = s.woke c' ++ (Function.update s.caller c q c').rest _ _
    by_cases hc' : c' = c
    · subst hc'
      rw [hself, hinv.calls c']
      exact congrArg _ hrest.symm
    · rw [hne c' hc']
      exact hinv.calls c'

/-- Caller `c` wakes the task that it has taken off its list. -/
theorem Inv.wakes {k : Sleeper} {b : Bool} (hinv : s.Inv spot) (hhand : (s.caller c).hand = some (u, b))
    (hok : (s.phase u).Ok .off k) (hk : k.Ok) {q : CondCaller} {lock : Option Nat}
    (hq : q.hand = none) (hmoved : s.members (.nonTimed c) ≠ [] → q.Broadcasts)
    (hlock : lock = some c ↔ q.Locks) (hother : ∀ c', c' ≠ c → (lock = some c' ↔ s.lock = some c'))
    (hlist : q.Locks → q.Broadcasts → s.members .list = [])
    (hrest : (s.caller c).rest (s.members .listTimed) (s.members (.nonTimed c))
      = u :: q.rest (s.members .listTimed) (s.members (.nonTimed c))) :
    Inv { (s.wakes c u k).setCaller c q with lock := lock } (Function.update spot u .off) := by
  have hspot := (hinv.hands c u b).mp hhand
  have hne : ∀ c', c' ≠ c → Function.update s.caller c q c' = s.caller c' := fun c' hc' =>
    Function.update_of_ne hc' ..
  have hself : Function.update s.caller c q c = q := Function.update_self ..
  have hhands : CondHands (Function.update s.caller c q) (Function.update spot u .off) := by
    refine hinv.hands.update (fun t b' h => ?_) (fun c' b' h => ?_) (fun t b' h => ?_) fun c' b' h => ?_
    · rw [hhand] at h
      cases h
      rfl
    · rw [hspot] at h
      cases h
      rfl
    · rw [hq] at h
      cases h
    · cases h
  refine ⟨hinv.lists.reset (hand_ne_on hspot) (by simp), hhands, fun c' hmem => ?_, fun c' => ?_,
    fun c' hc' hb => ?_, fun c' => ?_, hinv.counts, hinv.phase_update hok, fun v => ?_⟩
  · show (Function.update s.caller c q c').Broadcasts
    by_cases hc' : c' = c
    · subst hc'
      rw [hself]
      exact hmoved hmem
    · rw [hne c' hc']
      exact hinv.moved c' hmem
  · show lock = some c' ↔ (Function.update s.caller c q c').Locks
    by_cases hc' : c' = c
    · subst hc'
      rw [hself]
      exact hlock
    · rw [hne c' hc', hother c' hc']
      exact hinv.lock c'
  · have hlocks : (Function.update s.caller c q c').Locks := hc'
    have hb : (Function.update s.caller c q c').Broadcasts := hb
    by_cases hc' : c' = c
    · subst hc'
      rw [hself] at hlocks hb
      exact hlist hlocks hb
    · rw [hne c' hc'] at hlocks hb
      exact hinv.swept c' hlocks hb
  · show s.target c' = Function.update s.woke c _ c' ++ (Function.update s.caller c q c').rest _ _
    by_cases hc' : c' = c
    · subst hc'
      rw [hself, hinv.calls c', hrest, Function.update_self, List.append_assoc]
      rfl
    · rw [hne c' hc', Function.update_of_ne hc']
      exact hinv.calls c'
  · show (Function.update s.sleeper u k v).Ok
    by_cases hv : v = u
    · subst hv
      rw [Function.update_self]
      exact hk
    · rw [Function.update_of_ne hv]
      exact hinv.sleeper v

/-- A broadcast takes the oldest waiter of its own list and submits it. -/
theorem Inv.spread {l : List TaskId} {k : Sleeper} (hinv : s.Inv spot) (hc : s.caller c = .spreading)
    (hl : s.members (.nonTimed c) = u :: l) (hok : (s.phase u).Ok .off k) (hk : k.Ok) :
    ((s.setMembers (.nonTimed c) l (s.links.remove (.task u))).wakes c u k).Inv
      (Function.update spot u .off) := by
  have hin : u ∈ s.members (.nonTimed c) := hl ▸ List.mem_cons_self
  have hon := (hinv.lists.on _ u).mp hin
  have hlists : CondLists (s.links.remove (.task u)) (Function.update s.members (.nonTimed c) l)
      (Function.update spot u .off) := by
    have := hinv.lists.take hin (fun h' => (by simp : Spot.off ≠ .on h'))
    rwa [hl, List.erase_cons_head] at this
  have hnotlist : ∀ l', Function.update s.members (.nonTimed c) l' .list = s.members .list := fun l' =>
    Function.update_of_ne (by simp) ..
  refine ⟨hlists, hinv.hands.reset (by rw [hon]; rfl) rfl, fun c' hmem => ?_, hinv.lock,
    fun c' hc' hb => ?_, fun c' => ?_, fun v => ?_, hinv.phase_update hok, fun v => ?_⟩
  · by_cases hc' : c' = c
    · subst hc'
      show (s.caller c').Broadcasts
      rw [hc]
      trivial
    · refine hinv.moved c' ?_
      have hmem : Function.update s.members (.nonTimed c) l (.nonTimed c') ≠ [] := hmem
      rwa [Function.update_of_ne (by simpa using hc')] at hmem
  · show Function.update s.members (.nonTimed c) l .list = []
    rw [hnotlist]
    exact hinv.swept c' hc' hb
  · show s.target c' = Function.update s.woke c _ c' ++ (s.caller c').rest
      (Function.update s.members (.nonTimed c) l .listTimed)
      (Function.update s.members (.nonTimed c) l (.nonTimed c'))
    rw [Function.update_of_ne (show CondHook.listTimed ≠ .nonTimed c by simp), hinv.calls c']
    by_cases hc' : c' = c
    · subst hc'
      rw [hc, hl, Function.update_self, Function.update_self, List.append_assoc]
      rfl
    · rw [Function.update_of_ne hc', Function.update_of_ne (by simpa using hc')]
  · show s.added v = s.taken v + if v ∈ Function.update s.members (.nonTimed c) l .list then 1 else 0
    rw [hnotlist]
    exact hinv.counts v
  · show (Function.update s.sleeper u k v).Ok
    by_cases hv : v = u
    · subst hv
      rw [Function.update_self]
      exact hk
    · rw [Function.update_of_ne hv]
      exact hinv.sleeper v

theorem Inv.signal (hinv : s.Inv spot) (hlock : s.lock = none) (hc : s.caller c = .idle) :
    (∃ spot', (s.signal c).Inv spot')
      ∧ (s.signal c).members .list ++ (s.signal c).members .listTimed
          = (s.members .list ++ s.members .listTimed).drop 1
      ∧ (s.signal c).sleeper = s.sleeper := by
  cases hl : s.members .list with
  | cons u l =>
      obtain ⟨spot', hinv', hmembers, hsleeper⟩ := hinv.signal_untimed hlock hc hl
      refine ⟨⟨spot', hinv'⟩, ?_, hsleeper⟩
      rw [hmembers, Function.update_self, Function.update_of_ne (by simp)]
      rfl
  | nil =>
      have hnil := hinv.moved_nil (c := c) (by rw [hc]; exact id)
      have hpop : (s.begins c ((s.members .list ++ s.members .listTimed).take 1)).pop .list = _ :=
        pop_eq hinv.lists (by simp)
      rw [show (s.begins c _).members .list = [] from hl] at hpop
      have hpop' : (s.begins c ((s.members .list ++ s.members .listTimed).take 1)).pop .listTimed = _ :=
        pop_eq hinv.lists (by simp)
      unfold Cond.signal
      dsimp only
      rw [hpop]
      dsimp only
      rw [hpop']
      cases hlt : s.members .listTimed with
      | cons u l =>
          rw [show (s.begins c _).members .listTimed = u :: l from hlt]
          refine ⟨⟨_, hinv.takeTimed (by rw [hc]; rfl) (fun c' _ => hinv.not_locks hlock c') hlt
            (fun hb => ?_) (fun hall => ?_) ?_ fun c' hc' => ⟨?_, ?_⟩⟩, ?_, rfl⟩
          · rw [hc] at hb
            exact hb.elim
          · cases hall
          · show Function.update s.target c _ c = Function.update s.woke c _ c ++ _
            rw [Function.update_self, Function.update_self, hl]
            rfl
          · exact Function.update_of_ne hc' ..
          · exact Function.update_of_ne hc' ..
          · show Function.update s.members .listTimed l .list ++
              Function.update s.members .listTimed l .listTimed = _
            rw [Function.update_self, Function.update_of_ne (by simp), hl]
            rfl
      | nil =>
          rw [show (s.begins c _).members .listTimed = [] from hlt]
          refine ⟨⟨spot, hinv.lists, hinv.hands, hinv.moved, hinv.lock, hinv.swept, fun c' => ?_,
            hinv.counts, hinv.phase, hinv.sleeper⟩, ?_, rfl⟩
          · show Function.update s.target c _ c' = Function.update s.woke c _ c' ++ (s.caller c').rest _ _
            by_cases hc' : c' = c
            · subst hc'
              rw [Function.update_self, Function.update_self, hc, hl]
              rfl
            · rw [Function.update_of_ne hc', Function.update_of_ne hc']
              exact hinv.calls c'
          · show s.members .list ++ s.members .listTimed = _
            rw [hl, hlt]
            rfl

theorem Inv.broadcast (hinv : s.Inv spot) (hlock : s.lock = none) (hc : s.caller c = .idle) :
    (s.broadcast c).Inv (CondLists.moveSpot spot s.members c) := by
  have hnil := hinv.moved_nil (c := c) (by rw [hc]; exact id)
  have hne : ∀ c', c' ≠ c → Function.update s.caller c .sweeping c' = s.caller c' := fun c' hc' =>
    Function.update_of_ne hc' ..
  have hself : Function.update s.caller c .sweeping c = .sweeping := Function.update_self ..
  have hhand : ∀ t, (CondLists.moveSpot spot s.members c t).hand = (spot t).hand := by
    intro t
    unfold CondLists.moveSpot
    split
    · rename_i hin
      rw [(hinv.lists.on _ t).mp hin]
      rfl
    · rfl
  refine ⟨hinv.lists.move hnil, fun c' t b => ?_, fun c' hmem => ?_, fun c' => ?_,
    fun c' hc' hb => ?_, fun c' => ?_, fun v => ?_, fun v => ?_, hinv.sleeper⟩
  · rw [hhand t]
    exact hinv.hands.resetCaller (by rw [hc]; rfl) (by rfl) c' t b
  · show (Function.update s.caller c .sweeping c').Broadcasts
    by_cases hc' : c' = c
    · subst hc'
      rw [hself]
      trivial
    · rw [hne c' hc']
      refine hinv.moved c' ?_
      have hmem : Function.update (Function.update s.members (.nonTimed c) (s.members .list)) .list [] (.nonTimed c')
        ≠ [] := hmem
      rwa [Function.update_of_ne (by simp), Function.update_of_ne (by simpa using hc')] at hmem
  · show some c = some c' ↔ (Function.update s.caller c .sweeping c').Locks
    by_cases hc' : c' = c
    · subst hc'
      rw [hself]
      exact iff_of_true rfl trivial
    · rw [hne c' hc']
      exact iff_of_false (fun heq => hc' (Option.some.inj heq).symm) (hinv.not_locks hlock c')
  · show Function.update (Function.update s.members (.nonTimed c) (s.members .list)) .list [] .list = []
    rw [Function.update_self]
  · show Function.update s.target c _ c' = Function.update s.woke c [] c' ++
      (Function.update s.caller c .sweeping c').rest
        (Function.update (Function.update s.members (.nonTimed c) (s.members .list)) .list [] .listTimed)
        (Function.update (Function.update s.members (.nonTimed c) (s.members .list)) .list [] (.nonTimed c'))
    rw [Function.update_of_ne (show CondHook.listTimed ≠ .list by simp),
      Function.update_of_ne (show CondHook.listTimed ≠ .nonTimed c by simp),
      Function.update_of_ne (show CondHook.nonTimed c' ≠ .list by simp)]
    by_cases hc' : c' = c
    · subst hc'
      rw [Function.update_self, Function.update_self, Function.update_self, hself]
      rfl
    · rw [Function.update_of_ne hc', Function.update_of_ne hc', hne c' hc',
        Function.update_of_ne (by simpa using hc')]
      exact hinv.calls c'
  · show s.added v = (if v ∈ s.members .list then s.taken v + 1 else s.taken v) +
      if v ∈ Function.update (Function.update s.members (.nonTimed c) (s.members .list)) .list [] .list then 1 else 0
    have hcount := hinv.counts v
    rw [Function.update_self, if_neg List.not_mem_nil]
    split at hcount <;> rename_i hin
    · rw [if_pos hin]
      exact hcount
    · rw [if_neg hin]
      exact hcount
  · show (s.phase v).Ok (CondLists.moveSpot spot s.members c v) (s.sleeper v)
    unfold CondLists.moveSpot
    split
    · rename_i hin
      have hon := (hinv.lists.on _ v).mp hin
      exact (hinv.phase v).untimed (Or.inl hon) (Or.inr (Or.inl ⟨c, rfl⟩))
    · exact hinv.phase v

/-! ## The next step of a caller -/

/-- How far caller `c` is from the end of its call. -/
def left (s : Cond) (c : Nat) : Nat :=
  4 * ((s.caller c).rest (s.members .listTimed) (s.members (.nonTimed c))).length
    + match s.caller c with
      | .requesting _ => 4
      | .sweeping => 3
      | .waking _ _ => 2
      | .submitting _ | .spreading => 1
      | .idle => 0

/-- What a step of caller `c` does: nobody but the task it wakes is
changed, and the call comes closer to its end. -/
structure Acts (s s' : Cond) (c : Nat) : Prop where
  phase : s'.phase = s.phase
  others : ∀ c', c' ≠ c → s'.caller c' = s.caller c'
  members : ∀ h t, t ∈ s'.members h → t ∈ s.members h
  woken : ∀ t, s'.sleeper t ≠ s.sleeper t → s'.woke c = s.woke c ++ [t]
  swept : s.caller c = .sweeping → s'.caller c = .spreading →
    s.members .list = [] ∧ s.members .listTimed = []
  left : s'.left c < s.left c

/-- The caller is done with a timed waiter. -/
theorem Inv.next {all : Bool} (hinv : s.Inv spot) (hc : s.caller c = .requesting all) :
    (s.next c all).Inv spot := by
  have hlock : s.lock = some c := (hinv.lock c).mpr (by rw [hc]; trivial)
  cases all with
  | true =>
      have hlist := hinv.swept c (by rw [hc]; trivial) (by rw [hc]; rfl)
      have := hinv.setCaller (c := c) (q := .sweeping) (by rw [hc]; rfl) rfl (fun _ => trivial)
        (iff_of_true hlock trivial) (fun c' _ => Iff.rfl) (fun _ _ => hlist) (by rw [hc]; rfl)
      exact this
  | false =>
      have hnil := hinv.moved_nil (c := c) (by rw [hc]; exact Bool.false_ne_true)
      refine hinv.setCaller (by rw [hc]; rfl) rfl (fun hne => absurd hnil hne)
        (iff_of_false (by simp) id) (fun c' hc' => ?_) (fun h => h.elim) (by rw [hc]; rfl)
      rw [hlock]
      exact iff_of_false (by simp) fun heq => hc' (Option.some.inj heq).symm

theorem next_sleeper (s : Cond) (c : Nat) (all : Bool) : (s.next c all).sleeper = s.sleeper := by
  cases all <;> rfl

theorem next_members (s : Cond) (c : Nat) (all : Bool) : (s.next c all).members = s.members := by
  cases all <;> rfl

theorem next_caller (s : Cond) (c : Nat) (all : Bool) :
    (s.next c all).caller = Function.update s.caller c (if all then .sweeping else .idle) := by
  cases all <;> rfl

/-- A step that wakes the task the caller has taken off its list, and brings
the caller to `q`. -/
theorem acts_wakes {k : Sleeper} {q : CondCaller} (hcaller : s'.caller = Function.update s.caller c q)
    (hphase : s'.phase = s.phase) (hmembers : s'.members = s.members)
    (hsleeper : s'.sleeper = Function.update s.sleeper u k)
    (hwoke : s'.woke c = s.woke c ++ [u]) (hc : s.caller c ≠ .sweeping) (hleft : s'.left c < s.left c) :
    Acts s s' c := by
  refine ⟨hphase, fun c' hc' => ?_, fun h t hin => ?_, fun t hne => ?_, fun hsw => absurd hsw hc, hleft⟩
  · rw [hcaller, Function.update_of_ne hc']
  · rwa [hmembers] at hin
  · have ht : t = u := by
      by_contra hne'
      rw [hsleeper, Function.update_of_ne hne'] at hne
      exact hne rfl
    rw [ht]
    exact hwoke

theorem Inv.act_submitting (hinv : s.Inv spot) (hc : s.caller c = .submitting u) :
    ∃ s' spot', s.act c = some s' ∧ s'.Inv spot' ∧ Acts s s' c := by
  have hhand : (s.caller c).hand = some (u, false) := by
    rw [hc]
    rfl
  have hspot : spot u = .submitting c := by
    have := (hinv.hands c u false).mp hhand
    cases hsp : spot u <;> rw [hsp] at this <;> cases this
    rfl
  obtain ⟨k, hsub, hk, hok⟩ := (hinv.phase u).submitted (hinv.sleeper u) (Or.inr (Or.inr ⟨c, hspot⟩))
  have hnil := hinv.moved_nil (c := c) (by rw [hc]; exact id)
  have hlock : s.lock = some c ↔ CondCaller.idle.Locks := by
    rw [hinv.lock, hc]
    exact Iff.rfl
  have hinv' := hinv.wakes (q := .idle) hhand hok hk rfl (fun hne => absurd hnil hne) hlock
    (fun c' _ => Iff.rfl) (fun h => h.elim) (by rw [hc]; rfl)
  refine ⟨_, _, ?_, hinv', ?_⟩
  · simp only [Cond.act, hc, hsub, Option.map_some]
    rfl
  · refine acts_wakes rfl rfl rfl rfl (Function.update_self ..) (by simp [hc]) ?_
    simp [Cond.left, Cond.wakes, Cond.setCaller, Cond.setSleeper, hc, CondCaller.rest]

theorem Inv.act_waking {all : Bool} (hinv : s.Inv spot) (hc : s.caller c = .waking u all) :
    ∃ s' spot', s.act c = some s' ∧ s'.Inv spot' ∧ Acts s s' c := by
  have hhand : (s.caller c).hand = some (u, true) := by
    rw [hc]
    rfl
  have hspot : spot u = .waking c := by
    have := (hinv.hands c u true).mp hhand
    cases hsp : spot u <;> rw [hsp] at this <;> cases this
    rfl
  have hok := (hinv.phase u).exchanged (Or.inr ⟨c, hspot⟩)
  have hlock : s.lock = some c := (hinv.lock c).mpr (by rw [hc]; trivial)
  have hlist : all = true → s.members .list = [] := fun hall =>
    hinv.swept c (by rw [hc]; trivial) (by rw [hc]; exact hall)
  have hmoved : s.members (.nonTimed c) ≠ [] → all = true := fun hne => by
    have := hinv.moved c hne
    rw [hc] at this
    exact this
  -- the state as if a purge were requested, which is what the other one is but for the caller
  have hinv' := hinv.wakes (q := .requesting all) hhand hok (hinv.sleeper u).exchange rfl hmoved
    (iff_of_true hlock trivial) (fun c' _ => Iff.rfl) (fun _ hb => hlist hb)
    (by rw [hc]; cases all <;> rfl)
  have hcaller : ((s.wakes c u (s.sleeper u).exchange).setCaller c (.requesting all)).caller c
      = .requesting all := Function.update_self ..
  by_cases hst : (s.sleeper u).state = .waiting
  · refine ⟨_, _, ?_, hinv', ?_⟩
    · simp only [Cond.act, hc, hst, if_true]
      rfl
    · refine acts_wakes rfl rfl rfl rfl (Function.update_self ..) (by simp [hc]) ?_
      cases all <;> simp [Cond.left, Cond.wakes, Cond.setCaller, Cond.setSleeper, hc, CondCaller.rest]
      omega
  · refine ⟨(s.wakes c u (s.sleeper u).exchange).next c all, Function.update spot u .off, ?_, ?_, ?_⟩
    · simp only [Cond.act, hc, hst, if_false]
    · have := hinv'.next (c := c) hcaller
      cases all <;> simpa [Cond.next, Cond.setCaller, Cond.wakes, Cond.setSleeper] using this
    · refine acts_wakes (next_caller ..) (next_phase ..) (next_members ..) (next_sleeper ..) ?_
        (by simp [hc]) ?_
      · cases all <;> simp [Cond.next, Cond.wakes, Cond.setCaller]
      · cases all <;> simp [Cond.left, Cond.next, Cond.wakes, Cond.setCaller, Cond.setSleeper, hc,
          CondCaller.rest]
        omega

/-- A step that wakes nobody and brings the caller to `q`. -/
theorem acts_quiet {q : CondCaller} (hcaller : s'.caller = Function.update s.caller c q)
    (hphase : s'.phase = s.phase) (hmembers : ∀ h t, t ∈ s'.members h → t ∈ s.members h)
    (hsleeper : s'.sleeper = s.sleeper)
    (hswept : s.caller c = .sweeping → q = .spreading →
      s.members .list = [] ∧ s.members .listTimed = []) (hleft : s'.left c < s.left c) :
    Acts s s' c := by
  refine ⟨hphase, fun c' hc' => ?_, hmembers, fun t hne => ?_, fun hsw hsp => hswept hsw ?_, hleft⟩
  · rw [hcaller, Function.update_of_ne hc']
  · rw [hsleeper] at hne
    exact absurd rfl hne
  · rwa [hcaller, Function.update_self] at hsp

theorem Inv.act_requesting {all : Bool} (hinv : s.Inv spot) (hc : s.caller c = .requesting all) :
    ∃ s' spot', s.act c = some s' ∧ s'.Inv spot' ∧ Acts s s' c := by
  refine ⟨s.next c all, spot, by simp only [Cond.act, hc], hinv.next hc, ?_⟩
  refine acts_quiet (next_caller ..) (next_phase ..) (fun h t hin => ?_) (next_sleeper ..)
    (fun hsw => ?_) ?_
  · rwa [next_members] at hin
  · rw [hc] at hsw
    cases hsw
  · cases all <;> simp [Cond.left, Cond.next, Cond.setCaller, hc, CondCaller.rest]

theorem Inv.act_sweeping (hinv : s.Inv spot) (hc : s.caller c = .sweeping) :
    ∃ s' spot', s.act c = some s' ∧ s'.Inv spot' ∧ Acts s s' c := by
  have hlocks : (s.caller c).Locks := by
    rw [hc]
    trivial
  have hlist : s.members .list = [] := hinv.swept c hlocks (by rw [hc]; trivial)
  have hpop : s.pop .listTimed = _ := pop_eq hinv.lists (by simp)
  cases hl : s.members .listTimed with
  | nil =>
      rw [hl] at hpop
      have hlock := (hinv.lock c).mpr hlocks
      refine ⟨{ s.setCaller c .spreading with lock := none }, spot, ?_, ?_, ?_⟩
      · simp only [Cond.act, hc, hpop]
      · refine hinv.setCaller (by rw [hc]; rfl) rfl (fun _ => trivial) (iff_of_false (by simp) id)
          (fun c' hc' => ?_) (fun h => h.elim) ?_
        · rw [hlock]
          exact iff_of_false (by simp) fun heq => hc' (Option.some.inj heq).symm
        · rw [hc, hl]
          rfl
      · refine acts_quiet rfl rfl (fun h t hin => hin) rfl (fun _ _ => ⟨hlist, hl⟩) ?_
        simp [Cond.left, Cond.setCaller, hc, hl, CondCaller.rest]
  | cons u l =>
      rw [hl] at hpop
      have hcalls : s.target c
          = s.woke c ++ (CondCaller.waking u true).rest l (s.members (.nonTimed c)) := by
        rw [hinv.calls c, hc, hl]
        rfl
      have hinv' := hinv.takeTimed (by rw [hc]; rfl) (fun c' hc' => hinv.not_locks_of_ne hlocks hc') hl
        (fun _ => rfl) (fun _ => hlist) hcalls fun c' _ => ⟨rfl, rfl⟩
      rw [← (hinv.lock c).mpr hlocks] at hinv'
      refine ⟨_, _, ?_, hinv', ?_⟩
      · simp only [Cond.act, hc, hpop]
        rfl
      · refine acts_quiet rfl rfl (fun h t hin => ?_) rfl (fun _ hq => by cases hq) ?_
        · have hin : t ∈ Function.update s.members .listTimed l h := hin
          by_cases hh : h = .listTimed
          · subst hh
            rw [Function.update_self] at hin
            rw [hl]
            exact List.mem_cons_of_mem u hin
          · rwa [Function.update_of_ne hh] at hin
        · simp [Cond.left, Cond.setMembers, hc, hl, CondCaller.rest]

theorem Inv.act_spreading (hinv : s.Inv spot) (hc : s.caller c = .spreading) :
    ∃ s' spot', s.act c = some s' ∧ s'.Inv spot' ∧ Acts s s' c := by
  have hpop : s.pop (.nonTimed c) = _ := pop_eq hinv.lists (by simp)
  cases hl : s.members (.nonTimed c) with
  | nil =>
      rw [hl] at hpop
      refine ⟨s.setCaller c .idle, spot, by simp only [Cond.act, hc, hpop], ?_, ?_⟩
      · have hlock : s.lock = some c ↔ CondCaller.idle.Locks := by
          rw [hinv.lock, hc]
          exact Iff.rfl
        exact hinv.setCaller (by rw [hc]; rfl) rfl (fun hne => absurd hl hne) hlock
          (fun c' _ => Iff.rfl) (fun h => h.elim) (by rw [hc, hl]; rfl)
      · refine acts_quiet rfl rfl (fun h t hin => hin) rfl (fun hsw => ?_) ?_
        · rw [hc] at hsw
          cases hsw
        · simp [Cond.left, Cond.setCaller, hc, hl, CondCaller.rest]
  | cons u l =>
      rw [hl] at hpop
      have hon := (hinv.lists.on (.nonTimed c) u).mp (hl ▸ List.mem_cons_self)
      obtain ⟨k, hsub, hk, hok⟩ := (hinv.phase u).submitted (hinv.sleeper u) (Or.inr (Or.inl ⟨c, hon⟩))
      refine ⟨_, _, ?_, hinv.spread hc hl hok hk, ?_⟩
      · simp only [Cond.act, hc, hpop]
        rw [show (s.setMembers (.nonTimed c) l _).sleeper u = s.sleeper u from rfl, hsub]
        rfl
      · refine ⟨rfl, fun c' _ => rfl, fun h t hin => ?_, fun t hne => ?_, fun hsw => ?_, ?_⟩
        · have hin : t ∈ Function.update s.members (.nonTimed c) l h := hin
          by_cases hh : h = .nonTimed c
          · subst hh
            rw [Function.update_self] at hin
            rw [hl]
            exact List.mem_cons_of_mem u hin
          · rwa [Function.update_of_ne hh] at hin
        · have ht : t = u := by
            by_contra hne'
            exact hne (Function.update_of_ne hne' ..)
          rw [ht]
          exact Function.update_self ..
        · rw [hc] at hsw
          cases hsw
        · simp [Cond.left, Cond.wakes, Cond.setMembers, Cond.setSleeper, hc, hl, CondCaller.rest]

/-- As long as its call has not ended, a caller has a next step. -/
theorem Inv.act (hinv : s.Inv spot) (hc : s.caller c ≠ .idle) :
    ∃ s' spot', s.act c = some s' ∧ s'.Inv spot' ∧ Acts s s' c := by
  cases hq : s.caller c with
  | idle => exact absurd hq hc
  | submitting u => exact hinv.act_submitting hq
  | waking u all => exact hinv.act_waking hq
  | requesting all => exact hinv.act_requesting hq
  | sweeping => exact hinv.act_sweeping hq
  | spreading => exact hinv.act_spreading hq

end Cond

end Nosv
