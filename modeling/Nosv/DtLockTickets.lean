import Nosv.DtLock

/-!
# Tickets of the delegation lock

A ticket is given the lock or moved to the second queue when it is `next`.
As long as less than `size` tickets wait, the slots of the tickets that wait
are all different, so that a slot holds for its ticket what was stored there
one lap before, or what its owner has registered.
-/

namespace Nosv

open Run

namespace DtLock

variable {ι α : Type} [DecidableEq ι] {s s' : State ι α} {t u : ι} {k : Nat}

/-- The ticket that a thread has taken, until it has been answered or leaves
the lock. -/
def Phase.ticket : Phase α → Option Nat
  | .locking k | .ticketed _ _ k | .spinning _ _ k | .passed _ _ k | .holding k _ => some k
  | .out | .tried _ | .turn _ | .entered _ | .sampled _ _ | .polling _ _ | .sleeping _ | .answered _
  | .served _ _ _ => none

/-- The CPU of the thread that waits with ticket `k` is registered in its slot. -/
def Registered (s : State ι α) (k cpu : Nat) : Prop :=
  ∃ t r prev, s.threads t = .spinning r prev k ∧ r.cpu = cpu
    ∧ (s.lock.waitqueue (s.lock.id k)).cpu = ⟨r.flags, k + cpu⟩

/-- What a ticket in a phase says about the lock. A thread that has delegated
finds its ticket in `items` when it was moved, and not when it was granted. -/
def Stands (l : Lock α) (granted : Nat) : Phase α → Prop
  | .tried k => k ≤ l.head
  | .turn k => k ≤ l.head ∧ (l.head = k → granted = k)
  | .locking k | .ticketed _ _ k => k = granted ∨ l.next ≤ k
  | .spinning r _ k => k < l.next → ((l.items r.cpu).ticket = k ↔ k ≠ granted)
  | .passed r _ k => k < l.next ∧ ((l.items r.cpu).ticket = k ↔ k ≠ granted)
  | .holding k _ => k = granted
  | .out | .entered _ | .sampled _ _ | .polling _ _ | .sleeping _ | .answered _ | .served _ _ _ => True

/-- What the holder of the lock has seen is still there. -/
def Sees (s : State ι α) : Seen → Prop
  | .nothing => True
  | .waiter => ∃ cpu, Registered s s.lock.next cpu
  | .front cpu => Registered s s.lock.next cpu
  | .popping cpu => Registered s s.lock.next cpu ∧ (s.lock.items cpu).ticket = s.lock.next

/-- The counters of the lock, the tickets in its slots, and the log -/
structure Counters (s : State ι α) : Prop where
  pos : 0 < s.lock.size
  base : s.lock.size ≤ s.granted
  granted_lt : s.granted < s.lock.next
  /-- All tickets up to `next` have been taken, or the last one that was granted is free. -/
  next_le : s.lock.next ≤ s.lock.head ∨ s.lock.head = s.granted
  room : s.lock.head < s.lock.next + s.lock.size
  /-- Slots hold the last ticket of theirs that was given out. -/
  slot_lt : ∀ i, (s.lock.waitqueue i).ticket < s.lock.next
  slot_le : ∀ k, s.lock.size ≤ k → k < s.lock.next → k ≤ (s.lock.waitqueue (s.lock.id k)).ticket
  log : s.log.map Prod.fst = List.range' s.lock.size (s.lock.next - s.lock.size)
  fates : (s.granted, Fate.granted) ∈ s.log ∧
    ∀ k, s.granted < k → k < s.lock.next → (k, Fate.moved) ∈ s.log

/-- A slot of the next lap holds a CPU of a lap before, or is registered. -/
def Entries (s : State ι α) : Prop :=
  ∀ k, s.lock.next ≤ k → k < s.lock.next + s.lock.size →
    (s.lock.waitqueue (s.lock.id k)).cpu.cpu < k ∨ ∃ cpu, Registered s k cpu

structure Tickets (s : State ι α) : Prop extends Counters s where
  entry : Entries s
  unique : ∀ t u k, (s.threads t).ticket = some k → (s.threads u).ticket = some k → t = u
  taken : ∀ t k, (s.threads t).ticket = some k → s.lock.size ≤ k ∧ k < s.lock.head
  owned : ∀ k, k < s.lock.head → k = s.granted ∨ s.lock.next ≤ k → ∃ t, (s.threads t).ticket = some k
  stands : ∀ t, Stands s.lock s.granted (s.threads t)
  sees : ∀ t k seen, s.threads t = .holding k seen → Sees s seen
  /-- Nobody has been moved since the ticket was granted, or its owner holds the lock. -/
  holder : (∃ t seen, s.threads t = .holding s.granted seen) ∨ s.lock.next = s.granted + 1
  items_lt : ∀ cpu, (s.lock.items cpu).ticket < s.lock.next
    ∨ ∃ t k, s.threads t = .holding k (.popping cpu)
  items_ne : ∀ cpu, (s.lock.items cpu).ticket ≠ s.granted
  cpus_lt : ∀ t r, (s.threads t).inside = some r → r.cpu < s.lock.size
  cpus : ∀ t u r r', (s.threads t).inside = some r → (s.threads u).inside = some r' → r.cpu = r'.cpu → t = u

omit [DecidableEq ι] in
theorem init_waitqueue (size : Nat) (memory : Nat → BitVec 32) (i : Nat) :
    (init size memory : State ι α).lock.waitqueue i = if i = 0 then ⟨size, ⟨0, 0⟩⟩ else ⟨0, ⟨0, 0⟩⟩ :=
  Function.update_apply (fun _ => (⟨0, ⟨0, 0⟩⟩ : Node)) 0 ⟨size, ⟨0, 0⟩⟩ i

omit [DecidableEq ι] in
theorem tickets_init {size : Nat} (hpos : 0 < size) (memory : Nat → BitVec 32) :
    Tickets (init size memory : State ι α) where
  pos := hpos
  base := Nat.le_refl size
  granted_lt := Nat.lt_succ_self size
  next_le := Or.inr rfl
  room := by
    show size < size + 1 + size
    omega
  slot_lt i := by
    rw [init_waitqueue]
    split
    · exact Nat.lt_succ_self size
    · exact Nat.succ_pos size
  slot_le k hle hlt := by
    obtain rfl : k = size := Nat.le_antisymm (Nat.le_of_lt_succ hlt) hle
    have hid : (init k memory : State ι α).lock.id k = 0 := Nat.mod_self k
    rw [init_waitqueue, hid]
    exact Nat.le_refl k
  entry k hle _ := by
    refine Or.inl ?_
    rw [init_waitqueue]
    have hk : 0 < k := Nat.lt_of_lt_of_le (Nat.succ_pos size) hle
    split
    · exact hk
    · exact hk
  unique t u k h := nomatch h
  taken t k h := nomatch h
  owned k hlt hk := by
    change k < size at hlt
    change k = size ∨ size + 1 ≤ k at hk
    omega
  stands t := trivial
  sees t k seen h := nomatch h
  holder := Or.inr rfl
  items_lt cpu := Or.inl (Nat.succ_pos size)
  items_ne cpu := Nat.ne_of_lt hpos
  cpus_lt t r h := nomatch h
  cpus t u r r' h := nomatch h
  log := by
    show [size] = List.range' size (size + 1 - size)
    rw [Nat.add_sub_cancel_left]
    rfl
  fates := by
    refine ⟨List.mem_singleton.mpr rfl, fun k hgt hlt => ?_⟩
    change size < k at hgt
    change k < size + 1 at hlt
    omega

omit [DecidableEq ι] in
theorem Tickets.fresh (h : Tickets s) (t : ι) (k : Nat) (ht : (s.threads t).ticket = some k) : k < s.lock.head :=
  (h.taken t k ht).2

omit [DecidableEq ι] in
theorem Tickets.next_of_free (h : Tickets s) (hfree : s.lock.head = s.granted) : s.lock.next = s.granted + 1 := by
  rcases h.holder with ⟨u, seen, hu⟩ | hnext
  · have hfresh := h.fresh u s.granted (congrArg Phase.ticket hu)
    omega
  · exact hnext

omit [DecidableEq ι] in
theorem Tickets.next_le_succ (h : Tickets s) : s.lock.next ≤ s.lock.head + 1 := by
  rcases h.next_le with hle | hfree
  · exact Nat.le_succ_of_le hle
  · exact Nat.le_of_eq (by rw [h.next_of_free hfree, hfree])

omit [DecidableEq ι] in
theorem Tickets.granted_le (h : Tickets s) : s.granted ≤ s.lock.head := by
  have hlt := h.granted_lt
  have hle := h.next_le_succ
  omega

/-! ## Steps that leave the tickets as they are -/

/-- The two locks differ in the answers only. -/
structure SameTickets (l l' : Lock α) : Prop where
  size : l'.size = l.size
  head : l'.head = l.head
  next : l'.next = l.next
  waitqueue : l'.waitqueue = l.waitqueue
  items : ∀ cpu, (l'.items cpu).ticket = (l.items cpu).ticket

theorem SameTickets.refl (l : Lock α) : SameTickets l l := ⟨rfl, rfl, rfl, rfl, fun _ => rfl⟩

theorem SameTickets.id {l l' : Lock α} (h : SameTickets l l') (k : Nat) : l'.id k = l.id k :=
  congrArg (k % ·) h.size

theorem SameTickets.stands {l l' : Lock α} (h : SameTickets l l') {granted : Nat} {p : Phase α}
    (hs : Stands l granted p) : Stands l' granted p := by
  cases p with
  | tried k =>
      show k ≤ l'.head
      rw [h.head]
      exact hs
  | turn k =>
      show k ≤ l'.head ∧ (l'.head = k → granted = k)
      rw [h.head]
      exact hs
  | locking k | ticketed r prev k =>
      show k = granted ∨ l'.next ≤ k
      rw [h.next]
      exact hs
  | spinning r prev k =>
      show k < l'.next → ((l'.items r.cpu).ticket = k ↔ k ≠ granted)
      rw [h.next, h.items]
      exact hs
  | passed r prev k =>
      show k < l'.next ∧ ((l'.items r.cpu).ticket = k ↔ k ≠ granted)
      rw [h.next, h.items]
      exact hs
  | holding k seen => exact hs
  | out | entered r | sampled r prev | polling r prev | sleeping r | answered r | served r item count =>
      trivial

/-- A thread goes on from one phase to another. -/
structure Advances (s : State ι α) (p q : Phase α) : Prop where
  /-- It keeps its ticket, or has been moved. -/
  ticket : q.ticket = p.ticket ∨ q.ticket = none ∧ ∀ k, p.ticket = some k → k < s.lock.next ∧ k ≠ s.granted
  spinning : ∀ r prev k, p = .spinning r prev k → k < s.lock.next
  holding : ∀ k seen, p = .holding k seen → seen.isPopping = false ∧ ∃ seen', q = .holding k seen'
  cpu_lt : ∀ r, q.inside = some r → r.cpu < s.lock.size
  cpu : ∀ r, q.inside = some r → p.inside = some r ∨ ∀ u r', r' ∈ (s.threads u).inside → r'.cpu ≠ r.cpu

omit [DecidableEq ι] in
theorem Registered.keep {cpu : Nat} (hsize : s'.lock.size = s.lock.size)
    (hslot : (s'.lock.waitqueue (s.lock.id k)).cpu = (s.lock.waitqueue (s.lock.id k)).cpu)
    (hspin : ∀ u r prev, s.threads u = .spinning r prev k → s'.threads u = .spinning r prev k)
    (h : Registered s k cpu) : Registered s' k cpu := by
  obtain ⟨u, r, prev, hu, hcpu, hcurrent⟩ := h
  have hid : s'.lock.id k = s.lock.id k := congrArg (k % ·) hsize
  exact ⟨u, r, prev, hspin u r prev hu, hcpu, by rw [hid, hslot, hcurrent]⟩

omit [DecidableEq ι] in
theorem Sees.keep {seen : Seen} (hnext : s'.lock.next = s.lock.next)
    (hitems : ∀ cpu, (s'.lock.items cpu).ticket = (s.lock.items cpu).ticket)
    (hregistered : ∀ cpu, Registered s s.lock.next cpu → Registered s' s.lock.next cpu) (h : Sees s seen) :
    Sees s' seen := by
  cases seen with
  | nothing => trivial
  | waiter =>
      obtain ⟨cpu, hreg⟩ := h
      exact ⟨cpu, by rw [hnext]; exact hregistered cpu hreg⟩
  | front cpu =>
      show Registered s' s'.lock.next cpu
      rw [hnext]
      exact hregistered cpu h
  | popping cpu =>
      refine ⟨?_, ?_⟩
      · rw [hnext]
        exact hregistered cpu h.1
      · rw [hitems, hnext]
        exact h.2

/-! ## The frame of a step -/

/-- The counters stay as they are, and the slots keep their tickets. -/
structure SameCounters (s s' : State ι α) : Prop where
  size : s'.lock.size = s.lock.size
  next : s'.lock.next = s.lock.next
  slot : ∀ i, (s'.lock.waitqueue i).ticket = (s.lock.waitqueue i).ticket
  granted : s'.granted = s.granted
  log : s'.log = s.log

omit [DecidableEq ι] in
theorem SameCounters.id (h : SameCounters s s') (k : Nat) : s'.lock.id k = s.lock.id k := congrArg (k % ·) h.size

omit [DecidableEq ι] in
theorem Counters.keep (h : Counters s) (hsame : SameCounters s s')
    (hhead : s.lock.next ≤ s'.lock.head ∨ s'.lock.head = s.granted)
    (hroom : s'.lock.head < s.lock.next + s.lock.size) : Counters s' where
  pos := by
    rw [hsame.size]
    exact h.pos
  base := by
    rw [hsame.size, hsame.granted]
    exact h.base
  granted_lt := by
    rw [hsame.granted, hsame.next]
    exact h.granted_lt
  next_le := by
    rw [hsame.next, hsame.granted]
    exact hhead
  room := by
    rw [hsame.next, hsame.size]
    exact hroom
  slot_lt i := by
    rw [hsame.slot, hsame.next]
    exact h.slot_lt i
  slot_le k := by
    rw [hsame.size, hsame.next, hsame.slot, hsame.id]
    exact h.slot_le k
  log := by
    rw [hsame.log, hsame.size, hsame.next]
    exact h.log
  fates := by
    rw [hsame.granted, hsame.log, hsame.next]
    exact h.fates

omit [DecidableEq ι] in
theorem Entries.keep (h : Entries s) (hsame : SameCounters s s')
    (hcpu : ∀ i, (s'.lock.waitqueue i).cpu = (s.lock.waitqueue i).cpu)
    (hregistered : ∀ k cpu, s.lock.next ≤ k → Registered s k cpu → Registered s' k cpu) : Entries s' := by
  intro k
  rw [hsame.next, hsame.size, hsame.id, hcpu]
  intro hle hlt
  exact (h k hle hlt).imp_right fun ⟨cpu, hreg⟩ => ⟨cpu, hregistered k cpu hle hreg⟩

/-- Thread `t` goes on to phase `q`, with its ticket and its request or with
new ones. -/
structure Replaces (s s' : State ι α) (t : ι) (q : Phase α) : Prop where
  threads : s'.threads = Function.update s.threads t q
  size : s'.lock.size = s.lock.size
  head : s.lock.head ≤ s'.lock.head
  ticket : ∀ k, q.ticket = some k → (s.threads t).ticket = some k ∨ k = s.lock.head ∧ k < s'.lock.head
  /-- The tickets that wait are those that did, or are the thread's own. -/
  waits : ∀ k, k < s'.lock.head → k = s'.granted ∨ s'.lock.next ≤ k → q.ticket = some k
    ∨ k < s.lock.head ∧ (k = s.granted ∨ s.lock.next ≤ k) ∧ (s.threads t).ticket ≠ some k
  cpu_lt : ∀ r, q.inside = some r → r.cpu < s.lock.size
  cpu : ∀ r, q.inside = some r →
    (s.threads t).inside = some r ∨ ∀ u r', r' ∈ (s.threads u).inside → r'.cpu ≠ r.cpu

theorem Replaces.self {q : Phase α} (h : Replaces s s' t q) : s'.threads t = q := by
  rw [h.threads, Function.update_self]

theorem Replaces.other {q : Phase α} (h : Replaces s s' t q) (hu : u ≠ t) : s'.threads u = s.threads u := by
  rw [h.threads, Function.update_of_ne hu]

/-- A thread with its ticket and its request where the counters stay -/
theorem Replaces.of_same {q : Phase α} (hthreads : s'.threads = Function.update s.threads t q)
    (hsame : SameCounters s s') (hhead : s'.lock.head = s.lock.head)
    (hticket : q.ticket = (s.threads t).ticket ∨ q.ticket = none
      ∧ ∀ k, (s.threads t).ticket = some k → k < s.lock.next ∧ k ≠ s.granted)
    (hcpu_lt : ∀ r, q.inside = some r → r.cpu < s.lock.size)
    (hcpu : ∀ r, q.inside = some r →
      (s.threads t).inside = some r ∨ ∀ u r', r' ∈ (s.threads u).inside → r'.cpu ≠ r.cpu) :
    Replaces s s' t q where
  threads := hthreads
  size := hsame.size
  head := Nat.le_of_eq hhead.symm
  ticket k hk := by
    rcases hticket with hkept | ⟨hnone, -⟩
    · exact Or.inl (hkept ▸ hk)
    · rw [hnone] at hk
      nomatch hk
  waits k hlt hk := by
    rw [hsame.granted, hsame.next] at hk
    rw [hhead] at hlt
    by_cases hown : (s.threads t).ticket = some k
    · refine Or.inl ?_
      rcases hticket with hkept | ⟨-, hmoved⟩
      · rw [hkept, hown]
      · have hgone := hmoved k hown
        omega
    · exact Or.inr ⟨hlt, hk, hown⟩
  cpu_lt := hcpu_lt
  cpu := hcpu

/-- One thread goes on: its phase, the lock and what the others say of it
are all that is to be shown. -/
theorem Tickets.frame (h : Tickets s) {q : Phase α} (hr : Replaces s s' t q) (hcounters : Counters s')
    (hentry : Entries s') (hself : Stands s'.lock s'.granted q)
    (hstands : ∀ u, u ≠ t → Stands s'.lock s'.granted (s.threads u))
    (hsees : ∀ k seen, q = .holding k seen → Sees s' seen)
    (hothers : ∀ u k seen, u ≠ t → s.threads u = .holding k seen → Sees s' seen)
    (hholder : (∃ u seen, s'.threads u = .holding s'.granted seen) ∨ s'.lock.next = s'.granted + 1)
    (hitems_lt : ∀ cpu, (s'.lock.items cpu).ticket < s'.lock.next ∨ ∃ u k, s'.threads u = .holding k (.popping cpu))
    (hitems_ne : ∀ cpu, (s'.lock.items cpu).ticket ≠ s'.granted) : Tickets s' := by
  -- a ticket of the state after the step is one of the state before it, or the new one
  have hticket : ∀ {u k}, (s'.threads u).ticket = some k →
      (s.threads u).ticket = some k ∨ u = t ∧ k = s.lock.head ∧ k < s'.lock.head := by
    intro u k hu
    by_cases hut : u = t
    · rw [hut, hr.self] at hu
      exact (hr.ticket k hu).imp (fun hk => hut ▸ hk) fun hk => ⟨hut, hk⟩
    · rw [hr.other hut] at hu
      exact Or.inl hu
  have hinside : ∀ {u r}, (s'.threads u).inside = some r → (s.threads u).inside = some r
      ∨ u = t ∧ ∀ v r', r' ∈ (s.threads v).inside → r'.cpu ≠ r.cpu := by
    intro u r hu
    by_cases hut : u = t
    · rw [hut, hr.self] at hu
      exact (hr.cpu r hu).imp (fun hin => hut ▸ hin) fun hnew => ⟨hut, hnew⟩
    · rw [hr.other hut] at hu
      exact Or.inl hu
  refine ⟨hcounters, hentry, fun u v k hu hv => ?_, fun u k hu => ?_, fun k hlt hk => ?_, fun u => ?_,
    fun u k seen hu => ?_, hholder, hitems_lt, hitems_ne, fun u r hu => ?_, fun u v r r' hu hv hcpu => ?_⟩
  · rcases hticket hu with hu | ⟨hut, hk, -⟩
    · rcases hticket hv with hv | ⟨-, hk, -⟩
      · exact h.unique u v k hu hv
      · exact absurd (h.taken u k hu).2 (by omega)
    · rcases hticket hv with hv | ⟨hvt, -⟩
      · exact absurd (h.taken v k hv).2 (by omega)
      · rw [hut, hvt]
  · rw [hr.size]
    have hhead := hr.head
    rcases hticket hu with hu | ⟨-, rfl, hlt⟩
    · obtain ⟨hsize, hlt⟩ := h.taken u k hu
      exact ⟨hsize, by omega⟩
    · have hbase := h.base
      have hgranted := h.granted_le
      exact ⟨by omega, hlt⟩
  · rcases hr.waits k hlt hk with hown | ⟨hold, hk, hnot⟩
    · exact ⟨t, by rw [hr.self, hown]⟩
    · obtain ⟨u, hu⟩ := h.owned k hold hk
      have hut : u ≠ t := by
        rintro rfl
        exact hnot hu
      exact ⟨u, by rw [hr.other hut, hu]⟩
  · by_cases hut : u = t
    · rw [hut, hr.self]
      exact hself
    · rw [hr.other hut]
      exact hstands u hut
  · by_cases hut : u = t
    · rw [hut, hr.self] at hu
      exact hsees k seen hu
    · rw [hr.other hut] at hu
      exact hothers u k seen hut hu
  · rw [hr.size]
    by_cases hut : u = t
    · rw [hut, hr.self] at hu
      exact hr.cpu_lt r hu
    · rw [hr.other hut] at hu
      exact h.cpus_lt u r hu
  · rcases hinside hu with hu | ⟨hut, hnew⟩
    · rcases hinside hv with hv | ⟨-, hnew⟩
      · exact h.cpus u v r r' hu hv hcpu
      · exact absurd hcpu (hnew u r hu)
    · rcases hinside hv with hv | ⟨hvt, -⟩
      · exact absurd hcpu.symm (hnew v r' hv)
      · rw [hut, hvt]

theorem Tickets.advance (h : Tickets s) (hsame : SameTickets s.lock s'.lock) {q : Phase α}
    (hthreads : s'.threads = Function.update s.threads t q) (hgranted : s'.granted = s.granted)
    (hlog : s'.log = s.log) (hp : Advances s (s.threads t) q) (hstands : Stands s.lock s.granted q)
    (hsees : ∀ k seen, q = .holding k seen → Sees s seen) : Tickets s' := by
  have hcounters : SameCounters s s' :=
    ⟨hsame.size, hsame.next, fun _ => by rw [hsame.waitqueue], hgranted, hlog⟩
  have hr : Replaces s s' t q := .of_same hthreads hcounters hsame.head hp.ticket hp.cpu_lt hp.cpu
  have hregistered : ∀ k cpu, s.lock.next ≤ k → Registered s k cpu → Registered s' k cpu := by
    intro k cpu hk
    refine Registered.keep hsame.size (by rw [hsame.waitqueue]) fun u r prev hu => ?_
    have hne : u ≠ t := by
      rintro rfl
      have hlt := hp.spinning r prev k hu
      omega
    rw [hr.other hne, hu]
  have hsees' : ∀ {seen}, Sees s seen → Sees s' seen :=
    Sees.keep hsame.next hsame.items fun cpu => hregistered _ cpu (Nat.le_refl _)
  refine h.frame hr (h.toCounters.keep hcounters ?_ ?_) (h.entry.keep hcounters (fun _ => by rw [hsame.waitqueue])
    hregistered) ?_ (fun u _ => ?_) (fun k seen hq => hsees' (hsees k seen hq))
    (fun u k seen _ hu => hsees' (h.sees u k seen hu)) ?_ (fun cpu => ?_) fun cpu => ?_
  · rw [hsame.head]
    exact h.next_le
  · rw [hsame.head]
    exact h.room
  · rw [hgranted]
    exact hsame.stands hstands
  · rw [hgranted]
    exact hsame.stands (h.stands u)
  · rw [hgranted, hsame.next]
    refine h.holder.imp_left fun ⟨u, seen, hu⟩ => ?_
    by_cases hut : u = t
    · subst hut
      obtain ⟨-, seen', hq⟩ := hp.holding s.granted seen hu
      exact ⟨u, seen', hr.self.trans hq⟩
    · exact ⟨u, seen, (hr.other hut).trans hu⟩
  · rw [hsame.items, hsame.next]
    refine (h.items_lt cpu).imp_right fun ⟨u, k, hu⟩ => ⟨u, k, ?_⟩
    have hut : u ≠ t := by
      rintro rfl
      have hpop := (hp.holding k _ hu).1
      nomatch hpop
    rw [hr.other hut, hu]
  · rw [hsame.items, hgranted]
    exact h.items_ne cpu

/-! ## A ticket is taken -/

theorem Stands.take {l : Lock α} {granted : Nat} {p : Phase α} (hs : Stands l granted p) :
    Stands l.takeTicket granted p := by
  cases p with
  | tried k => exact Nat.le_succ_of_le hs
  | turn k =>
      obtain ⟨hk, hturn⟩ := hs
      refine ⟨Nat.le_succ_of_le hk, fun heq => ?_⟩
      change l.head + 1 = k at heq
      omega
  | locking k | ticketed r prev k | spinning r prev k | passed r prev k | holding k seen => exact hs
  | out | entered r | sampled r prev | polling r prev | sleeping r | answered r | served r item count =>
      trivial

/-- A thread that had no ticket takes the next one. It holds the lock at
once if the ticket had been granted before. -/
structure Takes (s : State ι α) (t : ι) (q : Phase α) : Prop where
  none : (s.threads t).ticket = none
  ticket : q.ticket = some s.lock.head
  waits : (∃ seen, q = .holding s.lock.head seen) → s.granted = s.lock.head
  phase : q = .locking s.lock.head ∨ (∃ r prev, q = .ticketed r prev s.lock.head)
    ∨ q = .holding s.lock.head .nothing
  inside : ∀ r, q.inside = some r → (s.threads t).inside = some r

theorem Tickets.take (h : Tickets s) {q : Phase α} (hlock : s'.lock = s.lock.takeTicket)
    (hthreads : s'.threads = Function.update s.threads t q) (hgranted : s'.granted = s.granted)
    (hlog : s'.log = s.log) (hroom : s.lock.head + 1 < s.lock.next + s.lock.size) (hp : Takes s t q) :
    Tickets s' := by
  have hsize : s'.lock.size = s.lock.size := by rw [hlock]; rfl
  have hnext : s'.lock.next = s.lock.next := by rw [hlock]; rfl
  have hhead : s'.lock.head = s.lock.head + 1 := by rw [hlock]; rfl
  have hqueue : s'.lock.waitqueue = s.lock.waitqueue := by rw [hlock]; rfl
  have hitems : s'.lock.items = s.lock.items := by rw [hlock]; rfl
  have hcounters : SameCounters s s' := ⟨hsize, hnext, fun _ => by rw [hqueue], hgranted, hlog⟩
  have hr : Replaces s s' t q :=
    { threads := hthreads
      size := hsize
      head := by omega
      ticket := fun k hk => by
        rw [hp.ticket] at hk
        obtain rfl := Option.some.inj hk
        exact Or.inr ⟨rfl, by omega⟩
      waits := fun k hlt hk => by
        rw [hp.none, hp.ticket]
        rw [hgranted, hnext] at hk
        by_cases heq : k = s.lock.head
        · exact Or.inl (congrArg some heq.symm)
        · exact Or.inr ⟨by omega, hk, nofun⟩
      cpu_lt := fun r hin => h.cpus_lt t r (hp.inside r hin)
      cpu := fun r hin => Or.inl (hp.inside r hin) }
  have hne : ∀ {u k}, (s.threads u).ticket = some k → u ≠ t := by
    rintro u k hu rfl
    rw [hp.none] at hu
    nomatch hu
  have hregistered : ∀ k cpu, Registered s k cpu → Registered s' k cpu := by
    intro k cpu
    refine Registered.keep hsize (by rw [hqueue]) fun u r prev hu => ?_
    rw [hr.other (hne (congrArg Phase.ticket hu)), hu]
  refine h.frame hr (h.toCounters.keep hcounters (by rw [hhead]; exact Or.inl h.next_le_succ) (by rwa [hhead]))
    (h.entry.keep hcounters (fun _ => by rw [hqueue]) fun k cpu _ => hregistered k cpu) ?_ (fun u _ => ?_)
    (fun k seen hq => ?_) (fun u k seen _ hu => ?_) ?_ (fun cpu => ?_) fun cpu => ?_
  · rw [hlock, hgranted]
    rcases hp.phase with rfl | ⟨r, prev, rfl⟩ | rfl
    · exact h.next_le.symm
    · exact h.next_le.symm
    · exact (hp.waits ⟨_, rfl⟩).symm
  · rw [hlock, hgranted]
    exact (h.stands u).take
  · rcases hp.phase with rfl | ⟨r, prev, rfl⟩ | rfl
    · nomatch hq
    · nomatch hq
    · obtain ⟨-, rfl⟩ := Phase.holding.inj hq
      trivial
  · exact Sees.keep hnext (fun _ => by rw [hitems]) (hregistered _) (h.sees u k seen hu)
  · rw [hgranted, hnext]
    refine h.holder.imp_left fun ⟨u, seen, hu⟩ => ⟨u, seen, ?_⟩
    rw [hr.other (hne (congrArg Phase.ticket hu)), hu]
  · rw [hitems, hnext]
    refine (h.items_lt cpu).imp_right fun ⟨u, k, hu⟩ => ⟨u, k, ?_⟩
    rw [hr.other (hne (congrArg Phase.ticket hu)), hu]
  · rw [hitems, hgranted]
    exact h.items_ne cpu

/-! ## A CPU is registered -/

theorem eq_of_mod_eq {m n size : Nat} (hmod : m % size = n % size) (hle : m ≤ n) (hlt : n < m + size) : m = n := by
  have hzero : (n - m) % size = 0 := Nat.sub_mod_eq_zero_of_mod_eq hmod.symm
  have hsub := Nat.eq_zero_of_dvd_of_lt (Nat.dvd_of_mod_eq_zero hzero) (by omega)
  omega

theorem add_le_of_mod_eq {m n size : Nat} (hmod : m % size = n % size) (hlt : m < n) : m + size ≤ n := by
  by_contra hcon
  exact absurd (eq_of_mod_eq hmod (Nat.le_of_lt hlt) (by omega)) (Nat.ne_of_lt hlt)

theorem register_ticket (l : Lock α) (k : Nat) (r : Request) (i : Nat) :
    ((l.register k r).waitqueue i).ticket = (l.waitqueue i).ticket := by
  show (Function.update l.waitqueue (l.id k) { l.waitqueue (l.id k) with cpu := ⟨r.flags, k + r.cpu⟩ } i).ticket = _
  rw [Function.update_apply]
  split
  · next hi => rw [hi]
  · rfl

theorem register_cpu (l : Lock α) (k : Nat) (r : Request) (i : Nat) :
    ((l.register k r).waitqueue i).cpu
      = if i = l.id k then ⟨r.flags, k + r.cpu⟩ else (l.waitqueue i).cpu := by
  show (Function.update l.waitqueue (l.id k) { l.waitqueue (l.id k) with cpu := ⟨r.flags, k + r.cpu⟩ } i).cpu = _
  rw [Function.update_apply]
  split
  · rfl
  · rfl

theorem Tickets.register (h : Tickets s) {r : Request} {prev : BitVec 31} (ht : s.threads t = .ticketed r prev k)
    (hlock : s'.lock = s.lock.register k r)
    (hthreads : s'.threads = Function.update s.threads t (.spinning r prev k)) (hgranted : s'.granted = s.granted)
    (hlog : s'.log = s.log) : Tickets s' := by
  have hsize : s'.lock.size = s.lock.size := by rw [hlock]; rfl
  have hnext : s'.lock.next = s.lock.next := by rw [hlock]; rfl
  have hhead : s'.lock.head = s.lock.head := by rw [hlock]; rfl
  have hitems : s'.lock.items = s.lock.items := by rw [hlock]; rfl
  have hcounters : SameCounters s s' := ⟨hsize, hnext, fun i => by rw [hlock, register_ticket], hgranted, hlog⟩
  have hinside : (s.threads t).inside = some r := congrArg Phase.inside ht
  have hcpu : r.cpu < s.lock.size := h.cpus_lt t r hinside
  have hfresh : k < s.lock.head := h.fresh t k (congrArg Phase.ticket ht)
  have hwaits : k = s.granted ∨ s.lock.next ≤ k := by
    have hstands := h.stands t
    rw [ht] at hstands
    exact hstands
  have hr : Replaces s s' t (.spinning r prev k) := by
    refine .of_same hthreads hcounters hhead (Or.inl (by rw [ht]; rfl)) (fun r' hr' => ?_) fun r' hr' => Or.inl ?_
    · obtain rfl := Option.some.inj hr'
      exact hcpu
    · obtain rfl := Option.some.inj hr'
      exact hinside
  have hne : ∀ {u p}, s.threads u = p → p ≠ .ticketed r prev k → u ≠ t := by
    rintro u p hu hp rfl
    exact hp (hu.symm.trans ht)
  -- the slot of another ticket that waits is another slot
  have hregistered : ∀ {m cpu}, s.lock.id m ≠ s.lock.id k → Registered s m cpu → Registered s' m cpu := by
    intro m cpu hid
    refine Registered.keep hsize ?_ fun u r' prev' hu => ?_
    · rw [hlock, register_cpu, if_neg hid]
    · rw [hr.other (hne hu nofun), hu]
  refine h.frame hr (h.toCounters.keep hcounters (by rw [hhead]; exact h.next_le) (by rw [hhead]; exact h.room))
    (fun m => ?_) ?_ (fun u _ => ?_) nofun (fun u m seen _ hu => ?_) ?_ (fun cpu => ?_) fun cpu => ?_
  · rw [hcounters.next, hcounters.size, hcounters.id, hlock, register_cpu]
    intro hle hlt
    by_cases hid : s.lock.id m = s.lock.id k
    · rw [if_pos hid]
      rcases Nat.lt_or_ge k s.lock.next with hgone | hwait
      · have hlap := add_le_of_mod_eq hid.symm (Nat.lt_of_lt_of_le hgone hle)
        exact Or.inl (by show k + r.cpu < m; omega)
      · obtain rfl : m = k := by
          have hroom := h.room
          rcases Nat.le_total m k with hmk | hkm
          · exact eq_of_mod_eq hid hmk (by omega)
          · exact (eq_of_mod_eq hid.symm hkm (by omega)).symm
        refine Or.inr ⟨r.cpu, t, r, prev, hr.self, rfl, ?_⟩
        rw [hlock, register_cpu]
        exact if_pos rfl
    · rw [if_neg hid]
      exact (h.entry m hle hlt).imp_right fun ⟨cpu, hreg⟩ => ⟨cpu, hregistered hid hreg⟩
  · rw [hgranted]
    intro hlt
    rw [hnext] at hlt
    obtain rfl : k = s.granted := by omega
    rw [hitems]
    exact iff_of_false (h.items_ne r.cpu) fun hk => hk rfl
  · rw [hlock, hgranted]
    have hstands := h.stands u
    revert hstands
    cases s.threads u <;> exact id
  · obtain rfl : m = s.granted := by
      have hstands := h.stands u
      rw [hu] at hstands
      exact hstands
    refine Sees.keep hnext (fun _ => by rw [hitems]) (fun cpu hreg => hregistered ?_ hreg) (h.sees u s.granted seen hu)
    -- `k` is not the ticket that was granted, and not `next` either
    intro hid
    have hk : k ≠ s.granted := by
      rintro rfl
      obtain rfl := h.unique u t s.granted (congrArg Phase.ticket hu) (congrArg Phase.ticket ht)
      rw [ht] at hu
      nomatch hu
    have hroom := h.room
    have heq := eq_of_mod_eq hid (hwaits.resolve_left hk) (by omega)
    obtain ⟨v, r', prev', hv, -, -⟩ := hreg
    obtain rfl := h.unique v t k (heq ▸ congrArg Phase.ticket hv) (congrArg Phase.ticket ht)
    rw [ht] at hv
    nomatch hv
  · rw [hgranted, hnext]
    refine h.holder.imp_left fun ⟨u, seen, hu⟩ => ⟨u, seen, ?_⟩
    rw [hr.other (hne hu nofun), hu]
  · rw [hitems, hnext]
    refine (h.items_lt cpu).imp_right fun ⟨u, m, hu⟩ => ⟨u, m, ?_⟩
    rw [hr.other (hne hu nofun), hu]
  · rw [hitems, hgranted]
    exact h.items_ne cpu

/-! ## A waiter is moved, or given the lock -/

omit [DecidableEq ι] in
theorem Tickets.holding_unique (h : Tickets s) {m n : Nat} {seen seen' : Seen} (ht : s.threads t = .holding m seen)
    (hu : s.threads u = .holding n seen') : u = t := by
  have hm := h.stands t
  have hn := h.stands u
  rw [ht] at hm
  rw [hu] at hn
  obtain rfl : m = s.granted := hm
  obtain rfl : n = s.granted := hn
  exact h.unique u t s.granted (congrArg Phase.ticket hu) (congrArg Phase.ticket ht)

theorem transfer_ticket (l : Lock α) (cpu i : Nat) :
    ((l.transfer cpu).items i).ticket = if i = cpu then l.next else (l.items i).ticket := by
  show (Function.update l.items cpu { l.items cpu with
    flags := (l.waitqueue (l.id l.next)).cpu.flags, ticket := l.next } i).ticket = _
  rw [Function.update_apply]
  split
  · rfl
  · rfl

theorem Tickets.transfer (h : Tickets s) {cpu : Nat} (ht : s.threads t = .holding k (.front cpu))
    (hlock : s'.lock = s.lock.transfer cpu)
    (hthreads : s'.threads = Function.update s.threads t (.holding k (.popping cpu)))
    (hgranted : s'.granted = s.granted) (hlog : s'.log = s.log) : Tickets s' := by
  have hsize : s'.lock.size = s.lock.size := by rw [hlock]; rfl
  have hnext : s'.lock.next = s.lock.next := by rw [hlock]; rfl
  have hhead : s'.lock.head = s.lock.head := by rw [hlock]; rfl
  have hqueue : s'.lock.waitqueue = s.lock.waitqueue := by rw [hlock]; rfl
  have hcounters : SameCounters s s' := ⟨hsize, hnext, fun _ => by rw [hqueue], hgranted, hlog⟩
  have hr : Replaces s s' t (.holding k (.popping cpu)) :=
    .of_same hthreads hcounters hhead (Or.inl (by rw [ht]; rfl)) nofun nofun
  have hregistered : ∀ m c, Registered s m c → Registered s' m c := by
    intro m c
    refine Registered.keep hsize (by rw [hqueue]) fun u r prev hu => ?_
    have hut : u ≠ t := by
      rintro rfl
      rw [ht] at hu
      nomatch hu
    rw [hr.other hut, hu]
  have hfront : Registered s s.lock.next cpu := h.sees t k _ ht
  obtain rfl : k = s.granted := by
    have hstands := h.stands t
    rw [ht] at hstands
    exact hstands
  -- another thread that was moved is not of this CPU
  have hcpu : ∀ {u r}, (s.threads u).inside = some r → (∀ prev, s.threads u ≠ .spinning r prev s.lock.next) →
      r.cpu ≠ cpu := by
    intro u r hu hnot hcpu
    obtain ⟨v, r', prev, hv, hr', -⟩ := hfront
    obtain rfl := h.cpus u v r r' hu (congrArg Phase.inside hv) (hcpu.trans hr'.symm)
    have hrr : some r = some r' := hu.symm.trans (congrArg Phase.inside hv)
    obtain rfl := Option.some.inj hrr
    exact hnot prev hv
  refine h.frame hr (h.toCounters.keep hcounters (by rw [hhead]; exact h.next_le) (by rw [hhead]; exact h.room))
    (h.entry.keep hcounters (fun _ => by rw [hqueue]) fun m c _ => hregistered m c) hgranted.symm (fun u hut => ?_)
    (fun m seen hq => ?_) (fun u m seen hut hu => absurd (h.holding_unique ht hu) hut)
    (Or.inl ⟨t, .popping cpu, by rw [hr.self, hgranted]⟩) (fun c => ?_) fun c => ?_
  · rw [hlock, hgranted]
    have hstands := h.stands u
    cases hu : s.threads u with
    | spinning r prev m =>
        rw [hu] at hstands
        intro hlt
        change m < s.lock.next at hlt
        rw [transfer_ticket, if_neg]
        · exact hstands hlt
        · refine hcpu (congrArg Phase.inside hu) fun prev' hspin => ?_
          rw [hu] at hspin
          obtain ⟨-, -, rfl⟩ := Phase.spinning.inj hspin
          exact Nat.lt_irrefl _ hlt
    | passed r prev m =>
        rw [hu] at hstands
        refine ⟨hstands.1, ?_⟩
        rw [transfer_ticket, if_neg]
        · exact hstands.2
        · refine hcpu (congrArg Phase.inside hu) fun prev' hspin => ?_
          rw [hu] at hspin
          nomatch hspin
    | out | tried m | turn m | locking m | entered r | sampled r prev | ticketed r prev m | polling r prev
    | sleeping r | answered r | served r item count | holding m seen =>
        rw [hu] at hstands
        exact hstands
  · obtain ⟨-, rfl⟩ := Phase.holding.inj hq
    refine ⟨?_, ?_⟩
    · rw [hnext]
      exact hregistered _ _ hfront
    · rw [hlock, transfer_ticket]
      exact if_pos rfl
  · rw [hlock, transfer_ticket]
    by_cases hc : c = cpu
    · exact Or.inr ⟨t, s.granted, by rw [hr.self, hc]⟩
    · rw [if_neg hc]
      refine (h.items_lt c).imp_right fun ⟨u, m, hu⟩ => ?_
      obtain rfl := h.holding_unique ht hu
      rw [ht] at hu
      nomatch hu
  · rw [hlock, transfer_ticket, hgranted]
    split
    · exact Nat.ne_of_gt h.granted_lt
    · exact h.items_ne c

theorem popfront_ticket (l : Lock α) (i : Nat) :
    ((dtlockPopfront l).waitqueue i).ticket = if i = l.id l.next then l.next else (l.waitqueue i).ticket := by
  show (Function.update l.waitqueue (l.id l.next) { l.waitqueue (l.id l.next) with ticket := l.next } i).ticket = _
  rw [Function.update_apply]
  split
  · rfl
  · rfl

theorem popfront_cpu (l : Lock α) (i : Nat) :
    ((dtlockPopfront l).waitqueue i).cpu = (l.waitqueue i).cpu := by
  show (Function.update l.waitqueue (l.id l.next) { l.waitqueue (l.id l.next) with ticket := l.next } i).cpu = _
  rw [Function.update_apply]
  split
  · next hi => rw [hi]
  · rfl

omit [DecidableEq ι] in
/-- `next` is given out: it was moved, or the lock is granted to it. -/
theorem Tickets.popped (h : Tickets s) {fate : Fate} (hlock : s'.lock = dtlockPopfront s.lock)
    (hlog : s'.log = s.log ++ [(s.lock.next, fate)])
    (hgranted : s.lock.size ≤ s'.granted ∧ s'.granted ≤ s.lock.next)
    (hnext : s.lock.next < s.lock.head ∨ s.lock.head = s'.granted)
    (hfates : (s'.granted, Fate.granted) ∈ s'.log ∧ ∀ k, s'.granted < k → k ≤ s.lock.next → (k, Fate.moved) ∈ s'.log) :
    Counters s' := by
  refine ⟨?_, ?_, ?_, ?_, ?_, fun i => ?_, fun m => ?_, ?_, ?_⟩
  · rw [hlock]
    exact h.pos
  · rw [hlock]
    exact hgranted.1
  · rw [hlock]
    exact Nat.lt_succ_of_le hgranted.2
  · rw [hlock]
    exact hnext
  · rw [hlock]
    show s.lock.head < s.lock.next + 1 + s.lock.size
    have hroom := h.room
    omega
  · rw [hlock, popfront_ticket]
    show _ < s.lock.next + 1
    split
    · exact Nat.lt_succ_self _
    · exact Nat.lt_succ_of_lt (h.slot_lt i)
  · rw [hlock, popfront_ticket]
    intro hle hlt
    change m < s.lock.next + 1 at hlt
    show m ≤ if s.lock.id m = s.lock.id s.lock.next then _ else (s.lock.waitqueue (s.lock.id m)).ticket
    split
    · exact Nat.le_of_lt_succ hlt
    · next hid =>
        have hne : m ≠ s.lock.next := fun heq => hid (congrArg s.lock.id heq)
        exact h.slot_le m hle (by omega)
  · have hbase := h.base
    have hlt := h.granted_lt
    have hlen : s.lock.next + 1 - s.lock.size = s.lock.next - s.lock.size + 1 := by omega
    rw [hlog, hlock, List.map_append, h.log]
    show _ ++ [s.lock.next] = List.range' s.lock.size (s.lock.next + 1 - s.lock.size)
    rw [hlen, List.range'_1_concat]
    congr 2
    omega
  · rw [hlock]
    exact ⟨hfates.1, fun k hgt hlt => hfates.2 k hgt (Nat.le_of_lt_succ hlt)⟩

omit [DecidableEq ι] in
theorem Tickets.entries_popped (h : Tickets s) (hlock : s'.lock = dtlockPopfront s.lock)
    (hspin : ∀ k u r prev, s.threads u = .spinning r prev k → s'.threads u = .spinning r prev k) : Entries s' := by
  have hregistered : ∀ {m c}, Registered s m c → Registered s' m c := by
    intro m c
    exact Registered.keep (by rw [hlock]; rfl) (by rw [hlock, popfront_cpu]) (hspin m)
  intro m
  rw [hlock, popfront_cpu]
  intro hle hlt
  change s.lock.next + 1 ≤ m at hle
  change m < s.lock.next + 1 + s.lock.size at hlt
  show (s.lock.waitqueue (s.lock.id m)).cpu.cpu < m ∨ _
  have hpos := h.pos
  by_cases hlap : m = s.lock.next + s.lock.size
  · -- the slot of the ticket that is given out comes next
    have hid : s.lock.id m = s.lock.id s.lock.next := by
      rw [hlap]
      exact Nat.add_mod_right _ _
    rw [hid]
    refine Or.inl ?_
    rcases h.entry s.lock.next (Nat.le_refl _) (by omega) with hold | ⟨cpu, u, r, prev, hu, rfl, hslot⟩
    · omega
    · rw [hslot, hlap]
      exact Nat.add_lt_add_left (h.cpus_lt u r (congrArg Phase.inside hu)) _
  · rcases h.entry m (by omega) (by omega) with hold | ⟨cpu, hreg⟩
    · exact Or.inl hold
    · exact Or.inr ⟨cpu, hregistered hreg⟩

/-- The thread that holds the lock gives `next` out. -/
theorem Tickets.give (h : Tickets s) {q : Phase α} {seen : Seen} {fate : Fate} (ht : s.threads t = .holding k seen)
    (hlock : s'.lock = dtlockPopfront s.lock) (hr : Replaces s s' t q)
    (hlog : s'.log = s.log ++ [(s.lock.next, fate)])
    (hgranted : s.lock.size ≤ s'.granted ∧ s'.granted ≤ s.lock.next)
    (hnext : s.lock.next < s.lock.head ∨ s.lock.head = s'.granted)
    (hfates : (s'.granted, Fate.granted) ∈ s'.log ∧ ∀ k, s'.granted < k → k ≤ s.lock.next → (k, Fate.moved) ∈ s'.log)
    (hself : Stands s'.lock s'.granted q) (hnothing : ∀ k seen, q = .holding k seen → seen = .nothing)
    (hstands : ∀ u, u ≠ t → Stands (dtlockPopfront s.lock) s'.granted (s.threads u))
    (hholder : (∃ u seen, s'.threads u = .holding s'.granted seen) ∨ s'.lock.next = s'.granted + 1)
    (hitems : ∀ c, (s.lock.items c).ticket ≤ s.lock.next ∧ (s.lock.items c).ticket ≠ s'.granted) : Tickets s' := by
  refine h.frame hr (h.popped hlock hlog hgranted hnext hfates) (h.entries_popped hlock fun m u r prev hu => ?_) hself
    (fun u hut => hlock ▸ hstands u hut) (fun m seen' hq => ?_)
    (fun u m seen' hut hu => absurd (h.holding_unique ht hu) hut) hholder (fun c => Or.inl ?_) fun c => ?_
  · have hut : u ≠ t := by
      rintro rfl
      rw [ht] at hu
      nomatch hu
    rw [hr.other hut, hu]
  · rw [hnothing m seen' hq]
    trivial
  · rw [hlock]
    exact Nat.lt_succ_of_le (hitems c).1
  · rw [hlock]
    exact (hitems c).2

theorem Tickets.move (h : Tickets s) {cpu : Nat} (ht : s.threads t = .holding k (.popping cpu))
    (hlock : s'.lock = dtlockPopfront s.lock)
    (hthreads : s'.threads = Function.update s.threads t (.holding k .nothing))
    (hgranted : s'.granted = s.granted) (hlog : s'.log = s.log ++ [(s.lock.next, .moved)]) : Tickets s' := by
  obtain rfl : k = s.granted := by
    have hstands := h.stands t
    rw [ht] at hstands
    exact hstands
  obtain ⟨⟨v, r, prev, hv, hcpu, -⟩, hitem⟩ := h.sees t s.granted _ ht
  have hlt : s.lock.next < s.lock.head := h.fresh v _ (congrArg Phase.ticket hv)
  have howner : ∀ {u}, (s.threads u).ticket = some s.lock.next → s.threads u = .spinning r prev s.lock.next := by
    intro u hu
    obtain rfl := h.unique u v _ hu (congrArg Phase.ticket hv)
    exact hv
  have hr : Replaces s s' t (.holding s.granted .nothing) :=
    { threads := hthreads
      size := by rw [hlock]; rfl
      head := by rw [hlock]; exact Nat.le_refl _
      ticket := fun m hm => Or.inl (by rw [ht]; exact hm)
      waits := fun m hm hk => by
        rw [hlock] at hm hk
        rw [hgranted] at hk
        change m = s.granted ∨ s.lock.next + 1 ≤ m at hk
        have hgrant := h.granted_lt
        by_cases heq : m = s.granted
        · exact Or.inl (congrArg some heq.symm)
        · refine Or.inr ⟨hm, by omega, fun hown => heq ?_⟩
          rw [ht] at hown
          exact (Option.some.inj hown).symm
      cpu_lt := nofun
      cpu := nofun }
  refine h.give ht hlock hr hlog ⟨?_, ?_⟩ (Or.inl hlt) ⟨?_, fun m hgt hm => ?_⟩ hgranted.symm (fun m seen hq => ?_)
    (fun u hut => ?_) (Or.inl ⟨t, .nothing, by rw [hr.self, hgranted]⟩) fun c => ⟨?_, ?_⟩
  · rw [hgranted]
    exact h.base
  · rw [hgranted]
    exact Nat.le_of_lt h.granted_lt
  · rw [hgranted, hlog]
    exact List.mem_append_left _ h.fates.1
  · rw [hgranted] at hgt
    rw [hlog]
    by_cases heq : m = s.lock.next
    · rw [heq]
      exact List.mem_append_right _ (List.mem_singleton.mpr rfl)
    · exact List.mem_append_left _ (h.fates.2 m hgt (by omega))
  · exact (Phase.holding.inj hq).2.symm
  · rw [hgranted]
    have hstands := h.stands u
    have hnext : ∀ {m}, (s.threads u).ticket = some m → s.threads u ≠ .spinning r prev s.lock.next →
        m ≠ s.lock.next := by
      rintro m hm hnot rfl
      exact hnot (howner hm)
    cases hu : s.threads u with
    | locking m | ticketed r' prev' m =>
        rw [hu] at hstands
        have hne := hnext (m := m) (by rw [hu]; rfl) (by rw [hu]; nofun)
        rcases hstands with hgrant | hwait
        · exact Or.inl hgrant
        · exact Or.inr (by show s.lock.next + 1 ≤ m; omega)
    | spinning r' prev' m =>
        rw [hu] at hstands
        intro hm
        change m < s.lock.next + 1 at hm
        by_cases heq : m = s.lock.next
        · have hspin := howner (u := u) (by rw [hu, heq]; rfl)
          rw [hu] at hspin
          obtain ⟨rfl, -, -⟩ := Phase.spinning.inj hspin
          rw [heq]
          exact iff_of_true (hcpu ▸ hitem) (Nat.ne_of_gt h.granted_lt)
        · exact hstands (by omega)
    | passed r' prev' m =>
        rw [hu] at hstands
        exact ⟨Nat.lt_succ_of_lt hstands.1, hstands.2⟩
    | out | tried m | turn m | entered r' | sampled r' prev' | polling r' prev' | sleeping r' | answered r'
    | served r' item count | holding m seen =>
        rw [hu] at hstands
        exact hstands
  · rcases h.items_lt c with hc | ⟨u, m, hu⟩
    · exact Nat.le_of_lt hc
    · obtain rfl := h.holding_unique ht hu
      rw [ht] at hu
      obtain ⟨-, hpop⟩ := Phase.holding.inj hu
      rw [← Seen.popping.inj hpop, hitem]
  · rw [hgranted]
    exact h.items_ne c

theorem Tickets.unlock (h : Tickets s) {seen : Seen} (ht : s.threads t = .holding k seen)
    (hseen : seen.isPopping = false) (hlock : s'.lock = dtlockPopfront s.lock)
    (hthreads : s'.threads = Function.update s.threads t .out) (hgranted : s'.granted = s.lock.next)
    (hlog : s'.log = s.log ++ [(s.lock.next, .granted)]) : Tickets s' := by
  obtain rfl : k = s.granted := by
    have hstands := h.stands t
    rw [ht] at hstands
    exact hstands
  have hgone : s.granted < s.lock.head := h.fresh t _ (congrArg Phase.ticket ht)
  have hle : s.lock.next ≤ s.lock.head := h.next_le.resolve_right (Nat.ne_of_gt hgone)
  have hitems : ∀ c, (s.lock.items c).ticket < s.lock.next := by
    intro c
    refine (h.items_lt c).resolve_right ?_
    rintro ⟨u, m, hu⟩
    obtain rfl := h.holding_unique ht hu
    rw [ht] at hu
    obtain ⟨-, rfl⟩ := Phase.holding.inj hu
    nomatch hseen
  have hr : Replaces s s' t .out :=
    { threads := hthreads
      size := by rw [hlock]; rfl
      head := by rw [hlock]; exact Nat.le_refl _
      ticket := nofun
      waits := fun m hm hk => by
        rw [hlock] at hm hk
        rw [hgranted] at hk
        change m = s.lock.next ∨ s.lock.next + 1 ≤ m at hk
        have hgrant := h.granted_lt
        refine Or.inr ⟨hm, by omega, fun hown => ?_⟩
        rw [ht] at hown
        have := Option.some.inj hown
        omega
      cpu_lt := nofun
      cpu := nofun }
  refine h.give ht hlock hr hlog ⟨?_, Nat.le_of_eq hgranted⟩ ?_ ⟨?_, fun m hgt hm => ?_⟩ trivial nofun
    (fun u hut => ?_) (Or.inr (by rw [hlock, hgranted]; rfl)) fun c => ⟨Nat.le_of_lt (hitems c), ?_⟩
  · rw [hgranted]
    exact Nat.le_trans h.base (Nat.le_of_lt h.granted_lt)
  · rw [hgranted]
    omega
  · rw [hgranted, hlog]
    exact List.mem_append_right _ (List.mem_singleton.mpr rfl)
  · rw [hgranted] at hgt
    omega
  · rw [hgranted]
    have hne : ∀ {m}, (s.threads u).ticket = some m → m ≠ s.granted := by
      rintro m hm rfl
      exact hut (h.unique u t _ hm (congrArg Phase.ticket ht))
    have hstands := h.stands u
    cases hu : s.threads u with
    | turn m =>
        rw [hu] at hstands
        obtain ⟨hm, hturn⟩ := hstands
        refine ⟨hm, fun heq => ?_⟩
        have hnow := hturn heq
        change s.lock.head = m at heq
        omega
    | locking m | ticketed r prev m =>
        rw [hu] at hstands
        have hm := hne (m := m) (by rw [hu]; rfl)
        have hwait := hstands.resolve_left hm
        show m = s.lock.next ∨ s.lock.next + 1 ≤ m
        omega
    | spinning r prev m =>
        rw [hu] at hstands
        have hm := hne (m := m) (by rw [hu]; rfl)
        intro hlt
        change m < s.lock.next + 1 at hlt
        show (s.lock.items r.cpu).ticket = m ↔ m ≠ s.lock.next
        by_cases heq : m = s.lock.next
        · rw [heq]
          exact iff_of_false (Nat.ne_of_lt (hitems r.cpu)) fun hnot => hnot rfl
        · exact iff_of_true ((hstands (by omega)).mpr hm) heq
    | passed r prev m =>
        rw [hu] at hstands
        have hm := hne (m := m) (by rw [hu]; rfl)
        exact ⟨Nat.lt_succ_of_lt hstands.1, iff_of_true (hstands.2.mpr hm) (Nat.ne_of_lt hstands.1)⟩
    | holding m seen' => exact absurd (h.holding_unique ht hu) hut
    | out | tried m | entered r | sampled r prev | polling r prev | sleeping r | answered r
    | served r item count =>
        rw [hu] at hstands
        exact hstands
  · rw [hgranted]
    exact Nat.ne_of_lt (hitems c)

/-! ## One step -/

/-- A thread that neither spins nor holds the lock goes on, with the request
that it had. -/
theorem Tickets.onward (h : Tickets s) {p q : Phase α} (ht : s.threads t = p)
    (hsame : SameTickets s.lock s'.lock) (hthreads : s'.threads = Function.update s.threads t q)
    (hgranted : s'.granted = s.granted) (hlog : s'.log = s.log) (hstands : Stands s.lock s.granted q)
    (hticket : q.ticket = p.ticket ∨ q.ticket = none ∧ ∀ k, p.ticket = some k → k < s.lock.next ∧ k ≠ s.granted)
    (hspin : ∀ r prev k, p ≠ .spinning r prev k) (hhold : ∀ k seen, p ≠ .holding k seen)
    (hinside : ∀ r, q.inside = some r → p.inside = some r)
    (hnothing : ∀ k seen, q = .holding k seen → seen = .nothing) : Tickets s' := by
  refine h.advance hsame hthreads hgranted hlog ?_ hstands fun k seen hp' => ?_
  · rw [ht]
    exact ⟨hticket, fun r prev k hp => absurd hp (hspin r prev k), fun k seen hp => absurd hp (hhold k seen),
      fun r hr => h.cpus_lt t r (ht ▸ hinside r hr), fun r hr => Or.inl (hinside r hr)⟩
  · rw [hnothing k seen hp']
    trivial

theorem tickets_clientStep (h : Tickets s) {p : Phase α} (ht : s.threads t = p) {m : Move α}
    (hpromised : Promised s (t, m)) (hstep : clientStep s t p m = some s') : Tickets s' := by
  have hstands := h.stands t
  rw [ht] at hstands
  cases p with
  | out =>
      cases m with
      | tryLock =>
          obtain rfl := Option.some.inj hstep
          exact h.onward ht (SameTickets.refl _) rfl rfl rfl (Nat.le_refl _) (Or.inl rfl) nofun nofun nofun nofun
      | lock =>
          obtain rfl := Option.some.inj hstep
          exact h.take (q := .locking s.lock.head) rfl rfl rfl rfl hpromised
            ⟨by rw [ht]; rfl, rfl, nofun, Or.inl rfl, nofun⟩
      | enter r =>
          obtain ⟨hcpu, heq⟩ := Option.ite_none_right_eq_some.mp hstep
          obtain rfl := Option.some.inj heq
          refine h.advance (SameTickets.refl _) rfl rfl rfl ?_ trivial nofun
          rw [ht]
          refine ⟨Or.inl rfl, nofun, nofun, fun r' hr' => ?_, fun r' hr' => Or.inr ?_⟩
          · obtain rfl := Option.some.inj hr'
            exact hcpu
          · obtain rfl := Option.some.inj hr'
            exact hpromised
      | _ => nomatch hstep
  | tried k =>
      cases m with
      | tryTicket =>
          simp only [clientStep] at hstep
          split at hstep
          · next hturn =>
              obtain rfl := Option.some.inj hstep
              refine h.onward ht (SameTickets.refl _) rfl rfl rfl ⟨hstands, fun hhead => ?_⟩ (Or.inl rfl) nofun nofun
                nofun nofun
              -- the slot holds a ticket that has been given out
              have hlt := h.slot_lt (s.lock.id k)
              rw [hturn] at hlt
              have hle := h.next_le
              omega
          · obtain rfl := Option.some.inj hstep
            exact h.onward ht (SameTickets.refl _) rfl rfl rfl trivial (Or.inl rfl) nofun nofun nofun nofun
      | _ => nomatch hstep
  | turn k =>
      cases m with
      | tryHead fails =>
          simp only [clientStep] at hstep
          split at hstep
          · next hhead =>
              obtain ⟨rfl, -⟩ := hhead
              obtain rfl := Option.some.inj hstep
              have hfree : s.granted = s.lock.head := hstands.2 rfl
              refine h.take (q := .holding s.lock.head .nothing) rfl rfl rfl rfl ?_
                ⟨by rw [ht]; rfl, rfl, fun _ => hfree, Or.inr (Or.inr rfl), nofun⟩
              have hnext := h.next_of_free hfree.symm
              have hpos := h.pos
              omega
          · obtain rfl := Option.some.inj hstep
            exact h.onward ht (SameTickets.refl _) rfl rfl rfl trivial (Or.inl rfl) nofun nofun nofun nofun
      | _ => nomatch hstep
  | locking k =>
      cases m with
      | lockPass =>
          obtain ⟨hturn, heq⟩ := Option.ite_none_right_eq_some.mp hstep
          obtain rfl := Option.some.inj heq
          refine h.onward ht (SameTickets.refl _) rfl rfl rfl ?_ (Or.inl rfl) nofun nofun nofun ?_
          · have hlt := h.slot_lt (s.lock.id k)
            rw [hturn] at hlt
            exact hstands.resolve_right (Nat.not_le.mpr hlt)
          · rintro k' seen hp
            exact (Phase.holding.inj hp).2.symm
      | _ => nomatch hstep
  | entered r =>
      cases m with
      | sample =>
          obtain rfl := Option.some.inj hstep
          exact h.onward ht (SameTickets.refl _) rfl rfl rfl trivial (Or.inl rfl) nofun nofun (fun _ => id) nofun
      | _ => nomatch hstep
  | sampled r prev =>
      cases m with
      | take =>
          obtain rfl := Option.some.inj hstep
          exact h.take (q := .ticketed r prev s.lock.head) rfl rfl rfl rfl hpromised
            ⟨by rw [ht]; rfl, rfl, nofun, Or.inr (Or.inl ⟨r, prev, rfl⟩), fun r' hr' => by rw [ht]; exact hr'⟩
      | _ => nomatch hstep
  | ticketed r prev k =>
      cases m with
      | register =>
          obtain rfl := Option.some.inj hstep
          exact h.register ht rfl rfl rfl rfl
      | _ => nomatch hstep
  | spinning r prev k =>
      cases m with
      | pass =>
          obtain ⟨hslot, heq⟩ := Option.ite_none_left_eq_some.mp hstep
          obtain rfl := Option.some.inj heq
          have hlt : k < s.lock.next := Nat.lt_of_le_of_lt (Nat.not_lt.mp hslot) (h.slot_lt _)
          refine h.advance (SameTickets.refl _) rfl rfl rfl ?_ ⟨hlt, hstands hlt⟩ nofun
          rw [ht]
          refine ⟨Or.inl rfl, fun r' prev' k' hp => ?_, nofun, fun r' hr' => h.cpus_lt t r' (by rw [ht]; exact hr'),
            fun r' => Or.inl⟩
          obtain ⟨-, -, rfl⟩ := Phase.spinning.inj hp
          exact hlt
      | _ => nomatch hstep
  | passed r prev k =>
      cases m with
      | acquire =>
          simp only [clientStep] at hstep
          split at hstep
          · next hne =>
              obtain rfl := Option.some.inj hstep
              refine h.onward ht ⟨rfl, rfl, rfl, rfl, fun cpu => ?_⟩ rfl rfl rfl ?_ (Or.inl rfl) nofun nofun nofun ?_
              · show (Function.update s.lock.items r.cpu { s.lock.items r.cpu with flags := r.flags } cpu).ticket = _
                rw [Function.update_apply]
                split
                · next hcpu => rw [hcpu]
                · rfl
              · by_contra hk
                exact hne (hstands.2.mpr hk)
              · rintro k' seen hp
                exact (Phase.holding.inj hp).2.symm
          · next heq =>
              obtain rfl := Option.some.inj hstep
              refine h.onward ht (SameTickets.refl _) rfl rfl rfl trivial (Or.inr ⟨rfl, fun k' hk' => ?_⟩) nofun nofun
                (fun _ => id) nofun
              obtain rfl := Option.some.inj hk'
              exact ⟨hstands.1, hstands.2.mp (not_not.mp heq)⟩
      | _ => nomatch hstep
  | polling r prev =>
      cases m with
      | poll =>
          simp only [clientStep] at hstep
          split at hstep
          · nomatch hstep
          · split at hstep
            · obtain rfl := Option.some.inj hstep
              exact h.onward ht (SameTickets.refl _) rfl rfl rfl trivial (Or.inl rfl) nofun nofun (fun _ => id) nofun
            · obtain rfl := Option.some.inj hstep
              exact h.onward ht (SameTickets.refl _) rfl rfl rfl trivial (Or.inl rfl) nofun nofun (fun _ => id) nofun
      | _ => nomatch hstep
  | sleeping r =>
      cases m with
      | wait =>
          obtain ⟨-, heq⟩ := Option.ite_none_right_eq_some.mp hstep
          obtain rfl := Option.some.inj heq
          exact h.onward ht ⟨rfl, rfl, rfl, rfl, fun _ => rfl⟩ rfl rfl rfl trivial (Or.inl rfl) nofun nofun
            (fun _ => id) nofun
      | _ => nomatch hstep
  | answered r =>
      cases m with
      | receive =>
          obtain rfl := Option.some.inj hstep
          split
          · exact h.onward ht (SameTickets.refl _) rfl rfl rfl trivial (Or.inl rfl) nofun nofun (fun _ => id) nofun
          · exact h.onward ht (SameTickets.refl _) rfl rfl rfl trivial (Or.inl rfl) nofun nofun (fun _ => id) nofun
      | _ => nomatch hstep
  | served r item count =>
      cases m with
      | leave =>
          obtain rfl := Option.some.inj hstep
          exact h.onward ht (SameTickets.refl _) rfl rfl rfl trivial (Or.inl rfl) nofun nofun nofun nofun
      | _ => nomatch hstep
  | holding k seen => nomatch hstep

theorem SameTickets.setItem {l : Lock α} {cpu : Nat} {i : Item α} (hi : i.ticket = (l.items cpu).ticket) :
    SameTickets l (l.setItem cpu i) := by
  refine ⟨rfl, rfl, rfl, rfl, fun c => ?_⟩
  show (Function.update l.items cpu i c).ticket = _
  rw [Function.update_apply]
  split
  · next hc => rw [hc, hi]
  · rfl

theorem SameTickets.serve (l : Lock α) (cpu : Nat) (item : Answer α) (count : Nat) (signal : SignalKind) :
    SameTickets l (dtlockServe l cpu item count signal) := by
  unfold dtlockServe
  dsimp only
  split
  · have hsame : SameTickets l (l.setItem cpu { l.items cpu with item := item, scheduledCount := count }) :=
      SameTickets.setItem rfl
    exact ⟨rfl, rfl, rfl, rfl, hsame.items⟩
  · exact SameTickets.setItem rfl

theorem tickets_holderStep (h : Tickets s) {seen : Seen} (ht : s.threads t = .holding k seen) {m : Move α}
    (hstep : holderStep s t k seen m = some s') : Tickets s' := by
  have hk : k = s.granted := by
    have hstands := h.stands t
    rw [ht] at hstands
    exact hstands
  have hsees := h.sees t k seen ht
  have hadvances : ∀ seen', seen.isPopping = false → Advances s (s.threads t) (.holding k seen') := by
    intro seen' hpop
    rw [ht]
    refine ⟨Or.inl rfl, nofun, fun k' seen'' hp => ?_, nofun, nofun⟩
    obtain ⟨rfl, rfl⟩ := Phase.holding.inj hp
    exact ⟨hpop, seen', rfl⟩
  cases m with
  | empty =>
      obtain ⟨hpop, heq⟩ := Option.ite_none_left_eq_some.mp hstep
      obtain rfl := Option.some.inj heq
      refine h.advance (SameTickets.refl _) rfl rfl rfl (hadvances _ (eq_false_of_ne_true hpop)) hk
        fun k' seen' hp => ?_
      obtain ⟨-, rfl⟩ := Phase.holding.inj hp
      split
      · trivial
      · next hempty =>
          have hpos := h.pos
          exact (h.entry s.lock.next (Nat.le_refl _) (by omega)).resolve_left fun hlt =>
            hempty (decide_eq_true hlt)
  | front =>
      obtain ⟨rfl, heq⟩ := Option.ite_none_right_eq_some.mp hstep
      obtain rfl := Option.some.inj heq
      refine h.advance (SameTickets.refl _) rfl rfl rfl (hadvances _ rfl) hk fun k' seen' hp => ?_
      obtain ⟨-, rfl⟩ := Phase.holding.inj hp
      obtain ⟨cpu, hreg⟩ := hsees
      have hfront : dtlockFront s.lock = cpu := by
        obtain ⟨_, _, _, -, -, hslot⟩ := hreg
        unfold dtlockFront
        rw [hslot]
        exact Nat.add_sub_cancel_left _ _
      rw [hfront]
      exact hreg
  | transfer =>
      cases seen with
      | front cpu =>
          obtain rfl := Option.some.inj hstep
          exact h.transfer ht rfl rfl rfl rfl
      | nothing | waiter | popping cpu => nomatch hstep
  | popfront =>
      cases seen with
      | popping cpu =>
          obtain rfl := Option.some.inj hstep
          exact h.move ht rfl rfl rfl rfl
      | nothing | waiter | front cpu => nomatch hstep
  | serve cpu item count signal =>
      obtain ⟨hpop, heq⟩ := Option.ite_none_left_eq_some.mp hstep
      obtain ⟨-, heq⟩ := Option.ite_none_right_eq_some.mp heq
      obtain rfl := Option.some.inj heq
      refine h.advance (t := t) (q := .holding k seen) (SameTickets.serve _ _ _ _ _) ?_ rfl rfl
        (hadvances _ (eq_false_of_ne_true hpop)) hk fun k' seen' hp => ?_
      · rw [← ht, Function.update_eq_self]
      · obtain ⟨-, rfl⟩ := Phase.holding.inj hp
        exact hsees
  | unlock =>
      obtain ⟨hpop, heq⟩ := Option.ite_none_left_eq_some.mp hstep
      obtain rfl := Option.some.inj heq
      exact h.unlock ht (eq_false_of_ne_true hpop) rfl rfl rfl rfl
  | _ => nomatch hstep

theorem tickets_step {a : ι × Move α} (hpromised : Promised s a) (hstep : step s a = some s') (h : Tickets s) :
    Tickets s' := by
  obtain ⟨t, m⟩ := a
  unfold step at hstep
  dsimp only at hstep
  split at hstep
  · next k seen ht => exact tickets_holderStep h ht hstep
  · exact tickets_clientStep h rfl hpromised hstep

/-! ## Runs -/

/-- How the threads stand to the lock. The ticket of who holds it was granted
last, and those after it up to `next` have been moved since. -/
structure Exclusive (s : State ι α) : Prop where
  one : ∀ t u k m seen seen', s.threads t = .holding k seen → s.threads u = .holding m seen' → t = u
  holder : ∀ t k seen, s.threads t = .holding k seen →
    k < s.lock.next ∧ (k, Fate.granted) ∈ s.log ∧ ∀ m, k < m → m < s.lock.next → (m, Fate.moved) ∈ s.log
  /-- Tickets are granted or moved one after the other. -/
  order : s.log.map Prod.fst = List.range' s.lock.size (s.lock.next - s.lock.size)
  /-- A ticket that has not been granted or moved waits, and nobody else has it. -/
  waits : ∀ k, s.lock.next ≤ k → k < s.lock.head → ∃ t, (s.threads t).ticket = some k
    ∧ (∀ u, (s.threads u).ticket = some k → u = t) ∧ ∀ m seen, s.threads t ≠ .holding m seen
  /-- The spins end when the ticket has been granted or moved. -/
  locking : ∀ t k, s.threads t = .locking k →
    ((s.lock.waitqueue (s.lock.id k)).ticket = k ↔ k < s.lock.next)
  spinning : ∀ t r prev k, s.threads t = .spinning r prev k →
    (¬ (s.lock.waitqueue (s.lock.id k)).ticket < k ↔ k < s.lock.next)
  /-- A waiter that is found at the front is the one with the next ticket. -/
  front : dtlockEmpty s.lock = false → dtlockFront s.lock < s.lock.size
    ∧ ∃ t r prev, s.threads t = .spinning r prev s.lock.next ∧ dtlockFront s.lock = r.cpu
      ∧ (s.lock.waitqueue (s.lock.id s.lock.next)).cpu.flags = r.flags

omit [DecidableEq ι] in
theorem Tickets.exclusive (h : Tickets s) : Exclusive s where
  one t u k m seen seen' ht hu := (h.holding_unique ht hu).symm
  holder t k seen ht := by
    obtain rfl : k = s.granted := by
      have hstands := h.stands t
      rw [ht] at hstands
      exact hstands
    exact ⟨h.granted_lt, h.fates⟩
  order := h.log
  waits k hle hlt := by
    obtain ⟨t, ht⟩ := h.owned k hlt (Or.inr hle)
    refine ⟨t, ht, fun u hu => h.unique u t k hu ht, fun m seen hold => ?_⟩
    have hstands := h.stands t
    rw [hold] at hstands ht
    obtain rfl : m = s.granted := hstands
    obtain rfl : s.granted = k := Option.some.inj ht
    exact absurd h.granted_lt (Nat.not_lt.mpr hle)
  locking t k ht := by
    have hstands := h.stands t
    rw [ht] at hstands
    have hlt := h.slot_lt (s.lock.id k)
    constructor
    · intro heq
      rwa [heq] at hlt
    · intro hk
      obtain rfl : k = s.granted := hstands.resolve_right (Nat.not_le.mpr hk)
      -- nobody has been moved while its owner does not hold the lock
      have hnext : s.lock.next = s.granted + 1 := by
        refine h.holder.resolve_left ?_
        rintro ⟨u, seen, hu⟩
        obtain rfl := h.unique u t _ (congrArg Phase.ticket hu) (congrArg Phase.ticket ht)
        rw [ht] at hu
        nomatch hu
      have hle := h.slot_le s.granted h.base hk
      omega
  spinning t r prev k ht := by
    constructor
    · intro hslot
      exact Nat.lt_of_le_of_lt (Nat.not_lt.mp hslot) (h.slot_lt _)
    · intro hk
      exact Nat.not_lt.mpr (h.slot_le k (h.taken t k (congrArg Phase.ticket ht)).1 hk)
  front hempty := by
    have hpos := h.pos
    rcases h.entry s.lock.next (Nat.le_refl _) (by omega) with hlt | ⟨cpu, t, r, prev, ht, rfl, hslot⟩
    · rw [dtlockEmpty, decide_eq_true hlt] at hempty
      nomatch hempty
    · have hfront : dtlockFront s.lock = r.cpu := by
        unfold dtlockFront
        rw [hslot]
        exact Nat.add_sub_cancel_left _ _
      rw [hfront]
      exact ⟨h.cpus_lt t r (congrArg Phase.inside ht), t, r, prev, ht, rfl, by rw [hslot]⟩

theorem tickets_run {size : Nat} (hpos : 0 < size) {memory : Nat → BitVec 32} {moves : List (ι × Move α)}
    (hpromised : Along step Promised (init size memory) moves)
    (hrun : run step (init size memory) moves = some s') : Tickets s' :=
  invariant_along (fun _ _ _ hp hstep hinv => tickets_step hp hstep hinv) hpromised hrun
    (tickets_init hpos memory)

/-- At any time at most one thread holds the lock, and tickets are granted
or moved in their order. -/
theorem lock_exclusive (size : Nat) (hpos : 0 < size) (memory : Nat → BitVec 32) (moves : List (ι × Move α))
    (hpromised : Along step Promised (init size memory) moves)
    (hrun : run step (init size memory) moves = some s') : Exclusive s' :=
  (tickets_run hpos hpromised hrun).exclusive

/-- One thread takes the lock, another one delegates and is moved. -/
def movedWaiter : List (Bool × Move Unit) :=
  [(false, .lock), (false, .lockPass), (true, .enter ⟨1, true, false⟩), (true, .sample), (true, .take), (true, .register),
    (false, .empty), (false, .front), (false, .transfer), (false, .popfront)]

theorem movedWaiter_exclusive :
    ∃ s', run step (init 2 (fun _ => 0)) movedWaiter = some s' ∧ Exclusive s' := by
  have hrun : (run step (init 2 (fun _ => 0)) movedWaiter).isSome := by decide
  obtain ⟨s', hs'⟩ := Option.isSome_iff_exists.mp hrun
  exact ⟨s', hs', lock_exclusive 2 (by decide) (fun _ => 0) movedWaiter (by decide) hs'⟩

/-- The ticket of who holds the lock is not `next - 1` any more. -/
theorem holder_moves :
    ¬ ∀ (moves : List (Bool × Move Unit)) (s' : State Bool Unit),
      Along step Promised (init 2 (fun _ => 0)) moves → run step (init 2 (fun _ => 0)) moves = some s' →
        ∀ t k seen, s'.threads t = .holding k seen → k = s'.lock.next - 1 := by
  intro hall
  have hmoved : ((run step (init 2 (fun _ => 0)) movedWaiter).map fun s => (s.threads false, s.lock.next))
      = some (.holding 2 .nothing, 4) := by decide
  obtain ⟨s', hs', heq⟩ := Option.map_eq_some_iff.mp hmoved
  obtain ⟨hholds, hnext⟩ := Prod.mk.inj heq
  have hlast := hall movedWaiter s' (by decide) hs' false 2 .nothing hholds
  rw [hnext] at hlast
  nomatch hlast

end DtLock

end Nosv
