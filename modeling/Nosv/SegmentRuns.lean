import Nosv.Segment

/-!
# Every run of the shared memory segment

The invariant has a part about each segment alone (`Segment.Ok`), one about
each segment and the processes that have it open (`Linkage`), one about each
process (`SegPc.Ok`), and the bookkeeping that ties them together: who has
the lock, who is in which slot, who is alive.

A step of a process changes this process and one segment, whose lock the
process has, gets or releases. `Inv.commit` carries the invariant over all
such steps at once; what is left for each of them is what it does to its
own segment.

A process that died while registered keeps its slot for good. It holds
`count` above zero, so that no process that leaves the segment removes the
name, which may lead to another segment by then.
-/

namespace Nosv

open Run

/-! ## The invariant -/

/-- A segment alone. -/
structure Segment.Ok (r : Segment) : Prop where
  count : r.count = Smem.occupied r.processes
  firsts : r.firsts = if r.size then 1 else 0
  blank : r.size = false → (∀ i, r.processes i = none) ∧ r.rests = 0
  freed : r.freed = r.zeroed
  zeroed : r.zeroed.length = if r.size ∧ r.count = 0 then 1 else 0

namespace Smem

/-- A segment with the processes that have it open. While it is not linked,
it is empty or somebody in it is dead; and it is empty and still linked
only when the last process is about to remove the name. -/
structure Linkage (s : Smem) (g : Nat) : Prop where
  unlinked : (s.seg g).size = true → s.linked ≠ some g →
    (s.seg g).count = 0 ∨ ∃ p, (s.pc p).registered = some g ∧ ¬ s.Alive p
  empty : (s.seg g).size = true → (s.seg g).count = 0 → s.linked = some g → ∃ p, s.pc p = .last g
  log_linked : s.linked = some g → (s.seg g).unlinked = []
  log_unlinked : s.linked ≠ some g → s.NoneDied g → (s.seg g).unlinked = (s.seg g).zeroed

/-- A process in the middle of a call. -/
def PcOk (s : Smem) (p : ProcId) : SegPc → Prop
  | .checking g i => s.linked = some g ∧ (s.seg g).size = true
      ∧ ∀ j < i, ∀ q, (s.seg g).processes j = some q → q ∉ s.deadAtCall p
  | .stale g => s.linked = some g ∧ ∃ q, (s.pc q).registered = some g ∧ ¬ s.Alive q
  | .first g => s.linked = some g ∧ (s.seg g).size = false
  | .rest g => s.linked = some g ∧ (s.seg g).size = true
      ∧ ∀ j < maxPids, ∀ q, (s.seg g).processes j = some q → q ∉ s.deadAtCall p
  | .returning g => s.linked = some g
  | .last g => s.linked = some g ∧ (s.seg g).size = true ∧ (s.seg g).count = 0
      ∧ (s.seg g).zeroed = [p]
  | _ => True

structure Inv (s : Smem) : Prop where
  lock : ∀ g p, (s.seg g).lock = some p ↔ (s.pc p).holds = some g
  slots : ∀ g i p, (s.seg g).processes i = some p ↔
    i < maxPids ∧ (s.pc p).registered = some g ∧ s.slotConfig p = some i
  registered : ∀ g p, (s.pc p).registered = some g → ∃ i < maxPids, s.slotConfig p = some i
  busy : ∀ p, (s.pc p).outside = false → s.pc p ≠ .aborted → s.Alive p
  used : ∀ p, s.pc p ≠ .idle ∨ s.Alive p → p ∈ s.used
  fresh : ∀ g, s.next ≤ g → s.seg g = Segment.empty
  linked_lt : ∀ g, s.linked = some g → g < s.next
  open_lt : ∀ p g, (s.pc p).segment = some g → g < s.next
  dead : ∀ p q, q ∈ s.deadAtCall p → q ∈ s.used ∧ ¬ s.Alive q
  seg : ∀ g, (s.seg g).Ok
  linkage : ∀ g, s.Linkage g
  pc : ∀ p, s.PcOk p (s.pc p)

theorem holds_segment {pc : SegPc} {g : Nat} (h : pc.holds = some g) : pc.segment = some g := by
  cases pc <;> simp_all [SegPc.holds, SegPc.segment]

theorem registered_segment {pc : SegPc} {g : Nat} (h : pc.registered = some g) :
    pc.segment = some g := by
  cases pc <;> simp_all [SegPc.registered, SegPc.segment, SegPc.holds]

/-! ## Frames -/

section Frames

variable {s s' : Smem} {g : Nat} {p : ProcId} {pc : SegPc}

/-- The processes of a segment, as far as the others can see them. -/
structure SameMembers (s s' : Smem) (g : Nat) : Prop where
  linked : s'.linked = some g ↔ s.linked = some g
  seg : ∃ lock, s'.seg g = { s.seg g with lock := lock }
  registered : ∀ q, (s'.pc q).registered = some g ↔ (s.pc q).registered = some g
  alive : ∀ q, (s.pc q).registered = some g → (s'.Alive q ↔ s.Alive q)

theorem Linkage.congr (h : s.Linkage g) (hsame : s.SameMembers s' g)
    (hlast : ∀ q, s.pc q = .last g → s'.pc q = .last g) : s'.Linkage g := by
  obtain ⟨hlinked, ⟨lock, hseg⟩, hreg, halive⟩ := hsame
  refine ⟨fun hsize hno => ?_, fun hsize hzero hyes => ?_, fun hyes => ?_, fun hno hnone => ?_⟩
  · rw [hseg] at hsize ⊢
    rw [Ne, hlinked] at hno
    refine (h.unlinked hsize hno).imp_right fun ⟨q, hq, hdead⟩ => ⟨q, (hreg q).mpr hq, ?_⟩
    rwa [halive q hq]
  · rw [hseg] at hsize hzero
    obtain ⟨q, hq⟩ := h.empty hsize hzero (hlinked.mp hyes)
    exact ⟨q, hlast q hq⟩
  · rw [hseg]
    exact h.log_linked (hlinked.mp hyes)
  · rw [hseg]
    rw [Ne, hlinked] at hno
    refine h.log_unlinked hno fun q hq => ?_
    exact (halive q hq).mp (hnone q ((hreg q).mpr hq))

/-- A process in the middle of a call depends on the segment that it has
locked. -/
theorem PcOk.congr (h : s.PcOk p pc) (hdead : s'.deadAtCall p = s.deadAtCall p)
    (hsame : ∀ g, pc.holds = some g → s.SameMembers s' g) : s'.PcOk p pc := by
  cases pc with
  | checking g i =>
      obtain ⟨hlinked, ⟨lock, hseg⟩, -, -⟩ := hsame g rfl
      obtain ⟨hl, hsize, hslots⟩ := h
      exact ⟨hlinked.mpr hl, by rw [hseg]; exact hsize, by rw [hseg, hdead]; exact hslots⟩
  | stale g =>
      obtain ⟨hlinked, -, hreg, halive⟩ := hsame g rfl
      obtain ⟨hl, q, hq, hqdead⟩ := h
      exact ⟨hlinked.mpr hl, q, (hreg q).mpr hq, by rwa [halive q hq]⟩
  | first g =>
      obtain ⟨hlinked, ⟨lock, hseg⟩, -, -⟩ := hsame g rfl
      exact ⟨hlinked.mpr h.1, by rw [hseg]; exact h.2⟩
  | rest g =>
      obtain ⟨hlinked, ⟨lock, hseg⟩, -, -⟩ := hsame g rfl
      obtain ⟨hl, hsize, hslots⟩ := h
      exact ⟨hlinked.mpr hl, by rw [hseg]; exact hsize, by rw [hseg, hdead]; exact hslots⟩
  | returning g => exact (hsame g rfl).linked.mpr h
  | last g =>
      obtain ⟨hlinked, ⟨lock, hseg⟩, -, -⟩ := hsame g rfl
      exact ⟨hlinked.mpr h.1, by rw [hseg]; exact h.2⟩
  | _ => trivial

end Frames

/-! ## A step of one process in one segment -/

/-- Everything that a step of process `p` on segment `g` may write. -/
def commit (s : Smem) (p : ProcId) (g : Nat) (pc : SegPc) (r : Segment) (slot linked : Option Nat) :
    Smem :=
  { s with
    pc := Function.update s.pc p pc
    seg := Function.update s.seg g r
    slotConfig := Function.update s.slotConfig p slot
    linked := linked }

/-- The condition on such a step: the process has the lock of the segment
before or takes it, has no other one open, other segments stay linked or
not, and the slots remain those of the registered processes. -/
structure Commits (s : Smem) (p : ProcId) (g : Nat) (pc : SegPc) (r : Segment)
    (slot linked : Option Nat) : Prop where
  alive : s.Alive p
  lt : g < s.next
  before : (s.pc p).segment = some g
  after : pc.segment = none ∨ pc.segment = some g
  lock_before : (s.seg g).lock = none ∨ (s.seg g).lock = some p
  lock_after : r.lock = none ∧ pc.holds = none ∨ r.lock = some p ∧ pc.holds = some g
  linked_other : ∀ h, h ≠ g → (linked = some h ↔ s.linked = some h)
  slots : ∀ i q, r.processes i = some q ↔
    if q = p then i < maxPids ∧ pc.registered = some g ∧ slot = some i
    else (s.seg g).processes i = some q
  registered : pc.registered = some g → ∃ i < maxPids, slot = some i
  seg : r.Ok
  linkage : (s.commit p g pc r slot linked).Linkage g
  pc : (s.commit p g pc r slot linked).PcOk p pc

variable {s s' : Smem} {p : ProcId} {g : Nat}

theorem Inv.commit {pc : SegPc} {r : Segment} {slot linked : Option Nat} (hinv : s.Inv)
    (hc : s.Commits p g pc r slot linked) : (s.commit p g pc r slot linked).Inv := by
  set s' := s.commit p g pc r slot linked with hs'
  have hpc : ∀ q, q ≠ p → s'.pc q = s.pc q := fun q hne => Function.update_of_ne hne ..
  have hseg : ∀ h, h ≠ g → s'.seg h = s.seg h := fun h hne => Function.update_of_ne hne ..
  have hslot : ∀ q, q ≠ p → s'.slotConfig q = s.slotConfig q := fun q hne =>
    Function.update_of_ne hne ..
  have hself : s'.pc p = pc := Function.update_self ..
  have hsegself : s'.seg g = r := Function.update_self ..
  have hslotself : s'.slotConfig p = slot := Function.update_self ..
  -- nobody else has the lock of the segment
  have hother : ∀ q, q ≠ p → (s.pc q).holds ≠ some g := by
    intro q hne hholds
    rw [← hinv.lock] at hholds
    rcases hc.lock_before with h | h <;> rw [h] at hholds
    · cases hholds
    · exact hne (Option.some.inj hholds).symm
  -- and the process is in no other segment, neither before nor after
  have hbefore : ∀ h, h ≠ g → (s.pc p).segment ≠ some h := by
    intro h hne heq
    rw [hc.before] at heq
    exact hne (Option.some.inj heq).symm
  have hafter : ∀ h, h ≠ g → pc.segment ≠ some h := by
    intro h hne heq
    rcases hc.after with hpc | hpc <;> rw [hpc] at heq
    · cases heq
    · exact hne (Option.some.inj heq).symm
  have hreg : ∀ h, h ≠ g → ∀ q, (s'.pc q).registered = some h ↔ (s.pc q).registered = some h := by
    intro h hne q
    by_cases hq : q = p
    · subst hq
      rw [hself]
      exact iff_of_false (fun heq => hafter h hne (registered_segment heq))
        fun heq => hbefore h hne (registered_segment heq)
    · rw [hpc q hq]
  have hmembers : ∀ h, h ≠ g → s.SameMembers s' h := fun h hne =>
    ⟨hc.linked_other h hne, ⟨_, hseg h hne⟩, hreg h hne, fun q _ => Iff.rfl⟩
  refine ⟨fun h q => ?_, fun h i q => ?_, fun h q hq => ?_, fun q hout hab => ?_, fun q hq => ?_,
    fun h hle => ?_, fun h hl => ?_, fun q h hq => ?_, hinv.dead, fun h => ?_, fun h => ?_, fun q => ?_⟩
  · have hlock := hinv.lock h q
    by_cases hne : h = g <;> by_cases hq : q = p
    · subst hne hq
      rw [hself, hsegself]
      rcases hc.lock_after with ⟨h₁, h₂⟩ | ⟨h₁, h₂⟩ <;> simp [h₁, h₂]
    · subst hne
      rw [hsegself, hpc q hq]
      refine iff_of_false ?_ (hother q hq)
      rcases hc.lock_after with ⟨h₁, -⟩ | ⟨h₁, -⟩ <;> simp [h₁, Ne.symm hq]
    · subst hq
      rw [hself, hseg h hne, hlock]
      exact iff_of_false (fun heq => hbefore h hne (holds_segment heq))
        fun heq => hafter h hne (holds_segment heq)
    · rw [hseg h hne, hpc q hq, hlock]
  · have hslots := hinv.slots h i q
    by_cases hne : h = g
    · subst hne
      rw [hsegself, hc.slots]
      by_cases hq : q = p
      · subst hq
        rw [if_pos rfl, hself, hslotself]
      · rw [if_neg hq, hpc q hq, hslot q hq, hslots]
    · rw [hseg h hne, hslots, hreg h hne]
      by_cases hq : q = p
      · subst hq
        have hno : (s.pc q).registered ≠ some h := fun heq => hbefore h hne (registered_segment heq)
        simp [hno]
      · rw [hslot q hq]
  · by_cases hqp : q = p
    · subst hqp
      rw [hself] at hq
      rw [hslotself]
      have hne : h = g := by
        by_contra hne
        exact hafter h hne (registered_segment hq)
      subst hne
      exact hc.registered hq
    · rw [hpc q hqp] at hq
      rw [hslot q hqp]
      exact hinv.registered h q hq
  · by_cases hqp : q = p
    · subst hqp
      exact hc.alive
    · rw [hpc q hqp] at hout hab
      exact hinv.busy q hout hab
  · by_cases hqp : q = p
    · subst hqp
      exact hinv.used q (Or.inr hc.alive)
    · rw [hpc q hqp] at hq
      exact hinv.used q hq
  · have hne : h ≠ g := by
      have := hc.lt
      have : s.next ≤ h := hle
      omega
    rw [hseg h hne]
    exact hinv.fresh h hle
  · by_cases hne : h = g
    · subst hne
      exact hc.lt
    · exact hinv.linked_lt h ((hc.linked_other h hne).mp hl)
  · by_cases hqp : q = p
    · subst hqp
      rw [hself] at hq
      have hne : h = g := by
        by_contra hne
        exact hafter h hne hq
      subst hne
      exact hc.lt
    · rw [hpc q hqp] at hq
      exact hinv.open_lt q h hq
  · by_cases hne : h = g
    · subst hne
      rw [hsegself]
      exact hc.seg
    · rw [hseg h hne]
      exact hinv.seg h
  · by_cases hne : h = g
    · subst hne
      exact hc.linkage
    · refine (hinv.linkage h).congr (hmembers h hne) fun q hq => ?_
      have hqp : q ≠ p := by
        rintro rfl
        exact hbefore h hne (by rw [hq]; rfl)
      rw [hpc q hqp, hq]
  · by_cases hqp : q = p
    · subst hqp
      rw [hself]
      exact hc.pc
    · rw [hpc q hqp]
      refine (hinv.pc q).congr rfl fun h hholds => hmembers h ?_
      rintro rfl
      exact hother q hqp hholds

/-! ## The steps -/

/-- A step that only moves the process and the lock. -/
theorem Inv.move (pc : SegPc) (lock : Option ProcId) (hinv : s.Inv) (halive : s.Alive p)
    (hbefore : (s.pc p).segment = some g) (hafter : pc.segment = none ∨ pc.segment = some g)
    (hlock : (s.seg g).lock = none ∨ (s.seg g).lock = some p)
    (hlock' : lock = none ∧ pc.holds = none ∨ lock = some p ∧ pc.holds = some g)
    (hreg : pc.registered = some g ↔ (s.pc p).registered = some g) (hlast : s.pc p ≠ .last g)
    (hok : s.PcOk p pc) : ((s.setLock g lock).setPc p pc).Inv := by
  set r : Segment := { s.seg g with lock := lock } with hr
  have heq : s.commit p g pc r (s.slotConfig p) s.linked = (s.setLock g lock).setPc p pc := by
    simp [Smem.commit, setLock, setSeg, setPc, hr]
  have hmembers : s.SameMembers (s.commit p g pc r (s.slotConfig p) s.linked) g := by
    refine ⟨Iff.rfl, ⟨lock, Function.update_self ..⟩, fun q => ?_, fun q _ => Iff.rfl⟩
    by_cases hq : q = p
    · subst hq
      simpa [Smem.commit] using hreg
    · simp [Smem.commit, hq]
  rw [← heq]
  refine hinv.commit ⟨halive, hinv.open_lt p g hbefore, hbefore, hafter, hlock, hlock', fun _ _ => Iff.rfl,
    fun i q => ?_, fun h => hinv.registered g p (hreg.mp h), ?_, ?_, ?_⟩
  · by_cases hq : q = p
    · subst hq
      rw [if_pos rfl, hreg]
      exact hinv.slots g i q
    · rw [if_neg hq]
  · obtain ⟨hcount, hfirsts, hblank, hfreed, hzeroed⟩ := hinv.seg g
    exact ⟨hcount, hfirsts, hblank, hfreed, hzeroed⟩
  · refine (hinv.linkage g).congr hmembers fun q hq => ?_
    have hne : q ≠ p := fun h => hlast (h ▸ hq)
    simpa [Smem.commit, hne] using hq
  · refine hok.congr rfl fun h hholds => ?_
    rcases hafter with hnone | hsome
    · rw [holds_segment hholds] at hnone
      cases hnone
    · rw [holds_segment hholds] at hsome
      obtain rfl := Option.some.inj hsome
      exact hmembers

/-- The process that has the lock moves on. -/
theorem Inv.moveLocked (pc : SegPc) (hinv : s.Inv) (halive : s.Alive p) (hholds : (s.pc p).holds = some g)
    (hpc : pc.holds = some g) (hreg : pc.registered = some g ↔ (s.pc p).registered = some g)
    (hlast : s.pc p ≠ .last g) (hok : s.PcOk p pc) : (s.setPc p pc).Inv := by
  have hlock := (hinv.lock g p).mpr hholds
  have hmove := hinv.move pc (s.seg g).lock halive (holds_segment hholds)
    (Or.inr (holds_segment hpc)) (Or.inr hlock) (Or.inr ⟨hlock, hpc⟩) hreg hlast hok
  simpa [setLock, setSeg] using hmove

/-- A step outside of any lock. -/
theorem Inv.moveFree (pc : SegPc) (dead : List ProcId) (hinv : s.Inv) (halive : s.Alive p)
    (hbefore : (s.pc p).holds = none) (hafter : pc.holds = none)
    (hreg : pc.registered = (s.pc p).registered) (hlt : ∀ h, pc.segment = some h → h < s.next)
    (hdead : ∀ q ∈ dead, q ∈ s.used ∧ ¬ s.Alive q) :
    Inv { s.setPc p pc with deadAtCall := Function.update s.deadAtCall p dead } := by
  set s' : Smem := { s.setPc p pc with deadAtCall := Function.update s.deadAtCall p dead } with hs'
  have hpc : ∀ q, q ≠ p → s'.pc q = s.pc q := fun q hne => Function.update_of_ne hne ..
  have hself : s'.pc p = pc := Function.update_self ..
  have hregs : ∀ q, (s'.pc q).registered = (s.pc q).registered := by
    intro q
    by_cases hq : q = p
    · subst hq
      rw [hself, hreg]
    · rw [hpc q hq]
  have hholds : ∀ q, (s'.pc q).holds = (s.pc q).holds := by
    intro q
    by_cases hq : q = p
    · subst hq
      rw [hself, hbefore, hafter]
    · rw [hpc q hq]
  have hmembers : ∀ h, s.SameMembers s' h := fun h =>
    ⟨Iff.rfl, ⟨_, rfl⟩, fun q => by rw [hregs q], fun q _ => Iff.rfl⟩
  refine ⟨fun h q => ?_, fun h i q => ?_, fun h q hq => ?_, fun q hout hab => ?_, fun q hq => ?_,
    hinv.fresh, hinv.linked_lt, fun q h hq => ?_, fun q u hu => ?_, hinv.seg, fun h => ?_, fun q => ?_⟩
  · rw [hholds q]
    exact hinv.lock h q
  · rw [hregs q]
    exact hinv.slots h i q
  · rw [hregs q] at hq
    exact hinv.registered h q hq
  · by_cases hqp : q = p
    · subst hqp
      exact halive
    · rw [hpc q hqp] at hout hab
      exact hinv.busy q hout hab
  · by_cases hqp : q = p
    · subst hqp
      exact hinv.used q (Or.inr halive)
    · rw [hpc q hqp] at hq
      exact hinv.used q hq
  · by_cases hqp : q = p
    · subst hqp
      rw [hself] at hq
      exact hlt h hq
    · rw [hpc q hqp] at hq
      exact hinv.open_lt q h hq
  · by_cases hqp : q = p
    · subst hqp
      simp only [hs', Function.update_self] at hu
      exact hdead u hu
    · simp only [hs', Function.update_of_ne hqp] at hu
      exact hinv.dead q u hu
  · refine (hinv.linkage h).congr (hmembers h) fun q hq => ?_
    have hne : q ≠ p := by
      rintro rfl
      rw [hq] at hbefore
      cases hbefore
    rw [hpc q hne, hq]
  · by_cases hqp : q = p
    · subst hqp
      rw [hself]
      cases pc <;> trivial
    · rw [hpc q hqp]
      exact (hinv.pc q).congr (Function.update_of_ne hqp ..) fun h _ => hmembers h

/-- `shm_open` creates a segment. -/
theorem Inv.createFile (hinv : s.Inv) (halive : s.Alive p) (hpc : s.pc p = .opening)
    (hnone : s.linked = none) :
    Inv { s.setPc p (.opened s.next) with linked := some s.next, next := s.next + 1 } := by
  set s' : Smem := { s.setPc p (.opened s.next) with linked := some s.next, next := s.next + 1 }
    with hs'
  have hpcs : ∀ q, q ≠ p → s'.pc q = s.pc q := fun q hne => Function.update_of_ne hne ..
  have hself : s'.pc p = .opened s.next := Function.update_self ..
  have hregs : ∀ q, (s'.pc q).registered = (s.pc q).registered := by
    intro q
    by_cases hq : q = p
    · subst hq
      rw [hself, hpc]
      rfl
    · rw [hpcs q hq]
  have hholds : ∀ q, (s'.pc q).holds = (s.pc q).holds := by
    intro q
    by_cases hq : q = p
    · subst hq
      rw [hself, hpc]
      rfl
    · rw [hpcs q hq]
  have hmembers : ∀ h, h ≠ s.next → s.SameMembers s' h := by
    intro h hne
    refine ⟨?_, ⟨_, rfl⟩, fun q => by rw [hregs q], fun q _ => Iff.rfl⟩
    rw [hnone]
    exact iff_of_false (fun heq => hne (Option.some.inj heq).symm) nofun
  have hempty := hinv.fresh s.next (Nat.le_refl _)
  refine ⟨fun h q => ?_, fun h i q => ?_, fun h q hq => ?_, fun q hout hab => ?_, fun q hq => ?_,
    fun h hle => ?_, fun h hl => ?_, fun q h hq => ?_, hinv.dead, hinv.seg, fun h => ?_, fun q => ?_⟩
  · rw [hholds q]
    exact hinv.lock h q
  · rw [hregs q]
    exact hinv.slots h i q
  · rw [hregs q] at hq
    exact hinv.registered h q hq
  · by_cases hqp : q = p
    · subst hqp
      exact halive
    · rw [hpcs q hqp] at hout hab
      exact hinv.busy q hout hab
  · by_cases hqp : q = p
    · subst hqp
      exact hinv.used q (Or.inr halive)
    · rw [hpcs q hqp] at hq
      exact hinv.used q hq
  · exact hinv.fresh h (Nat.le_of_succ_le hle)
  · obtain rfl := Option.some.inj hl
    exact Nat.lt_succ_self _
  · by_cases hqp : q = p
    · subst hqp
      rw [hself] at hq
      obtain rfl := Option.some.inj hq
      exact Nat.lt_succ_self _
    · rw [hpcs q hqp] at hq
      exact Nat.lt_succ_of_lt (hinv.open_lt q h hq)
  · by_cases hne : h = s.next
    · subst hne
      have hseg : s'.seg s.next = Segment.empty := hempty
      refine ⟨fun hsize => ?_, fun hsize => ?_, fun _ => ?_, fun hno => absurd rfl hno⟩
      · rw [hseg] at hsize
        cases hsize
      · rw [hseg] at hsize
        cases hsize
      · rw [hseg]
        rfl
    · refine (hinv.linkage h).congr (hmembers h hne) fun q hq => ?_
      have hqp : q ≠ p := by
        rintro rfl
        rw [hpc] at hq
        cases hq
      rw [hpcs q hqp, hq]
  · by_cases hqp : q = p
    · subst hqp
      rw [hself]
      trivial
    · rw [hpcs q hqp]
      refine (hinv.pc q).congr rfl fun h hh => hmembers h ?_
      have := hinv.open_lt q h (holds_segment hh)
      omega

/-- `shm_unlink` by a process that has the lock of the segment that is
linked: somebody in it is dead, or the process is the last one. -/
theorem Inv.unlink (pc : SegPc) (hinv : s.Inv) (hholds : (s.pc p).holds = some g)
    (halive : s.Alive p) (hpc : pc.holds = some g) (hreg : (s.pc p).registered = none)
    (hreg' : pc.registered = none) (hlinked : s.linked = some g)
    (hwhy : (∃ q, (s.pc q).registered = some g ∧ ¬ s.Alive q)
      ∨ (s.seg g).count = 0 ∧ (s.seg g).zeroed = [p])
    (hok : ∀ s : Smem, s.PcOk p pc) : ((s.shmUnlink p).setPc p pc).Inv := by
  have hlock := (hinv.lock g p).mpr hholds
  set r : Segment := { s.seg g with unlinked := (s.seg g).unlinked ++ [p] } with hr
  have heq : s.commit p g pc r (s.slotConfig p) none = (s.shmUnlink p).setPc p pc := by
    simp [Smem.commit, shmUnlink, hlinked, setSeg, setPc, hr]
  have hregs : ∀ q, ((s.commit p g pc r (s.slotConfig p) none).pc q).registered =
      (s.pc q).registered := by
    intro q
    by_cases hq : q = p
    · subst hq
      simp [Smem.commit, hreg, hreg']
    · simp [Smem.commit, hq]
  have hseg : (s.commit p g pc r (s.slotConfig p) none).seg g = r := Function.update_self ..
  rw [← heq]
  refine hinv.commit ⟨halive, hinv.open_lt p g (holds_segment hholds), holds_segment hholds,
    Or.inr (holds_segment hpc), Or.inr hlock, Or.inr ⟨hlock, hpc⟩, fun h hne => ?_, fun i q => ?_,
    fun h => ?_, ?_, ?_, hok _⟩
  · rw [hlinked]
    exact iff_of_false nofun fun h => hne (Option.some.inj h).symm
  · have hslots := hinv.slots g i q
    by_cases hq : q = p
    · subst hq
      rw [if_pos rfl, hreg']
      rw [hreg] at hslots
      exact hslots
    · rw [if_neg hq]
  · rw [hreg'] at h
    cases h
  · obtain ⟨hcount, hfirsts, hblank, hfreed, hzeroed⟩ := hinv.seg g
    exact ⟨hcount, hfirsts, hblank, hfreed, hzeroed⟩
  · refine ⟨fun _ _ => ?_, nofun, nofun, fun _ hnone => ?_⟩
    · rw [hseg]
      rcases hwhy with ⟨q, hq, hdead⟩ | ⟨hzero, -⟩
      · exact Or.inr ⟨q, (hregs q).trans hq, hdead⟩
      · exact Or.inl hzero
    · rw [hseg]
      rcases hwhy with ⟨q, hq, hdead⟩ | ⟨-, hzeroed⟩
      · exact absurd (hnone q ((hregs q).trans hq)) hdead
      · simp only [hr, (hinv.linkage g).log_linked hlinked, hzeroed, List.nil_append]

/-! ### Slots -/

theorem occupied_set {f : Nat → Option ProcId} {i : Nat} (hi : i < maxPids) (hfree : f i = none)
    (p : ProcId) : occupied (Function.update f i (some p)) = occupied f + 1 := by
  have hset : ((Finset.range maxPids).filter fun j => (Function.update f i (some p) j).isSome) =
      insert i ((Finset.range maxPids).filter fun j => (f j).isSome) := by
    ext j
    by_cases hj : j = i
    · subst hj
      simp [hi]
    · simp [hj]
  rw [occupied, hset, Finset.card_insert_of_notMem (by simp [hfree])]
  rfl

theorem occupied_clear {f : Nat → Option ProcId} {i : Nat} (hi : i < maxPids) {p : ProcId}
    (hfull : f i = some p) : occupied (Function.update f i none) + 1 = occupied f := by
  have hself : Function.update (Function.update f i none) i (some p) = f := by
    rw [Function.update_idem, ← hfull, Function.update_eq_self]
  rw [← occupied_set hi (Function.update_self ..) p, hself]

theorem occupied_pos {f : Nat → Option ProcId} {i : Nat} (hi : i < maxPids) {p : ProcId}
    (hfull : f i = some p) : 0 < occupied f := by
  rw [← occupied_clear hi hfull]
  omega

theorem maxPids_pos : 0 < maxPids := by
  unfold maxPids
  omega

theorem freeSlot_some {r : Segment} {i : Nat} (h : freeSlot r = some i) :
    i < maxPids ∧ r.processes i = none := by
  unfold freeSlot at h
  exact ⟨List.mem_range.mp (List.mem_of_find?_eq_some h), by simpa using List.find?_some h⟩

/-- What `smem_initialize_rest` does with a free slot. -/
theorem initializeRest_some {i : Nat} (hfree : freeSlot (s.seg g) = some i) :
    s.initializeRest p g = some { s.setSeg g { s.seg g with
      count := (s.seg g).count + 1
      rests := (s.seg g).rests + 1
      processes := Function.update (s.seg g).processes i (some p) } with
    slotConfig := Function.update s.slotConfig p (some i) } := by
  unfold initializeRest
  unfold freeSlot at hfree ⊢
  simp only [hfree]

/-- A registered process counts. -/
theorem Inv.count_pos (hinv : s.Inv) (hreg : (s.pc p).registered = some g) :
    0 < (s.seg g).count ∧ (s.seg g).size = true := by
  obtain ⟨i, hi, hslot⟩ := hinv.registered g p hreg
  have hfull := (hinv.slots g i p).mpr ⟨hi, hreg, hslot⟩
  constructor
  · rw [(hinv.seg g).count]
    exact_mod_cast occupied_pos hi hfull
  · by_contra hsize
    rw [((hinv.seg g).blank (by simpa using hsize)).1 i] at hfull
    cases hfull

/-- Nobody else is about to remove the name of the segment. -/
theorem Inv.not_last (hinv : s.Inv) (hholds : (s.pc p).holds = some g) {q : ProcId}
    (hq : s.pc q = .last g) : q = p := by
  have hlock := (hinv.lock g p).mpr hholds
  rw [(hinv.lock g q).mpr (by rw [hq]; rfl)] at hlock
  exact Option.some.inj hlock

/-- The members of the segment after a step of `p` in it. -/
theorem commit_registered {pc : SegPc} {r : Segment} {slot linked : Option Nat} {q : ProcId}
    (hne : q ≠ p) : ((s.commit p g pc r slot linked).pc q).registered = (s.pc q).registered := by
  simp [Smem.commit, hne]

theorem commit_seg {pc : SegPc} {r : Segment} {slot linked : Option Nat} :
    (s.commit p g pc r slot linked).seg g = r := Function.update_self ..

/-- `smem_initialize_first` -/
theorem Inv.first (hinv : s.Inv) (halive : s.Alive p) (hpc : s.pc p = .first g) :
    ((s.initializeFirst p g).setPc p (.returning g)).Inv := by
  obtain ⟨hlinked, hsize⟩ : s.linked = some g ∧ (s.seg g).size = false := by
    simpa [PcOk, hpc] using hinv.pc p
  have hholds : (s.pc p).holds = some g := by rw [hpc]; rfl
  have hlock := (hinv.lock g p).mpr hholds
  obtain ⟨-, hfirsts, hblank, hfreed, hzeroed⟩ := hinv.seg g
  obtain ⟨hnone, hrests⟩ := hblank hsize
  set r : Segment := { s.seg g with
    size := true
    processes := Function.update (fun _ => none) 0 (some p)
    count := 1
    firsts := (s.seg g).firsts + 1 } with hr
  have heq : s.commit p g (.returning g) r (some 0) s.linked =
      (s.initializeFirst p g).setPc p (.returning g) := by
    simp [Smem.commit, initializeFirst, setSeg, setPc, hr]
  rw [← heq]
  refine hinv.commit ⟨halive, hinv.open_lt p g (holds_segment hholds), holds_segment hholds,
    Or.inr rfl, Or.inr hlock, Or.inr ⟨hlock, rfl⟩, fun _ _ => Iff.rfl, fun i q => ?_,
    fun _ => ⟨0, maxPids_pos, rfl⟩, ?_, ?_, hlinked⟩
  · by_cases hi : i = 0
    · subst hi
      simp only [hr, Function.update_self, Option.some.injEq, hnone]
      by_cases hq : q = p
      · simp [hq, maxPids_pos, SegPc.registered]
      · simp [hq, Ne.symm hq]
    · simp only [hr, Function.update_of_ne hi, hnone]
      by_cases hq : q = p
      · simp [hq, Ne.symm hi]
      · simp [hq]
  · refine ⟨?_, ?_, nofun, hfreed, ?_⟩
    · have hone := occupied_set (f := fun _ => none) maxPids_pos rfl p
      have hzero : occupied (fun _ => none) = 0 := by simp [occupied]
      simp only [hr]
      omega
    · simp [hr, hfirsts, hsize]
    · simpa [hr, hsize] using hzeroed
  · refine ⟨fun _ hno => absurd hlinked hno, fun _ hzero => ?_, fun _ => ?_, fun hno => absurd hlinked hno⟩
    · rw [commit_seg] at hzero
      cases hzero
    · rw [commit_seg]
      exact (hinv.linkage g).log_linked hlinked

/-- `smem_initialize_rest`, in a slot that is free -/
theorem Inv.rest {i : Nat} (hinv : s.Inv) (halive : s.Alive p) (hpc : s.pc p = .rest g)
    (hfree : freeSlot (s.seg g) = some i) {s' : Smem} (hs' : s.initializeRest p g = some s') :
    (s'.setPc p (.returning g)).Inv := by
  obtain ⟨hlinked, hsize, -⟩ : s.linked = some g ∧ (s.seg g).size = true
      ∧ ∀ j < maxPids, ∀ q, (s.seg g).processes j = some q → q ∉ s.deadAtCall p := by
    simpa [PcOk, hpc] using hinv.pc p
  have hholds : (s.pc p).holds = some g := by rw [hpc]; rfl
  have hlock := (hinv.lock g p).mpr hholds
  obtain ⟨hcount, hfirsts, hblank, hfreed, hzeroed⟩ := hinv.seg g
  obtain ⟨hi, hslot⟩ := freeSlot_some hfree
  have hne : (s.seg g).count ≠ 0 := by
    intro hzero
    obtain ⟨q, hq⟩ := (hinv.linkage g).empty hsize hzero hlinked
    obtain rfl := hinv.not_last hholds hq
    rw [hpc] at hq
    cases hq
  have hzero : (s.seg g).zeroed = [] := by
    rw [if_neg fun h => hne h.2] at hzeroed
    exact List.length_eq_zero_iff.mp hzeroed
  set r : Segment := { s.seg g with
    count := (s.seg g).count + 1
    rests := (s.seg g).rests + 1
    processes := Function.update (s.seg g).processes i (some p) } with hr
  have heq : s.commit p g (.returning g) r (some i) s.linked = s'.setPc p (.returning g) := by
    rw [initializeRest_some hfree] at hs'
    rw [← Option.some.inj hs']
    simp [Smem.commit, setSeg, setPc, hr]
  rw [← heq]
  have hcount' : (s.seg g).count + 1 ≠ 0 := by
    rw [hcount]
    omega
  refine hinv.commit ⟨halive, hinv.open_lt p g (holds_segment hholds), holds_segment hholds,
    Or.inr rfl, Or.inr hlock, Or.inr ⟨hlock, rfl⟩, fun _ _ => Iff.rfl, fun j q => ?_,
    fun _ => ⟨i, hi, rfl⟩, ?_, ?_, hlinked⟩
  · have hslots := hinv.slots g j q
    have hnot : ∀ j, (s.seg g).processes j ≠ some p := by
      intro j h
      have := ((hinv.slots g j p).mp h).2.1
      rw [hpc] at this
      cases this
    by_cases hj : j = i
    · subst hj
      simp only [hr, Function.update_self, Option.some.injEq, hslot]
      by_cases hq : q = p
      · simp [hq, hi, SegPc.registered]
      · simp [hq, Ne.symm hq]
    · simp only [hr, Function.update_of_ne hj]
      by_cases hq : q = p
      · subst hq
        simp [hnot j, Ne.symm hj]
      · simp [hq]
  · refine ⟨?_, hfirsts, fun h => ?_, hfreed, ?_⟩
    · have hset := occupied_set hi hslot p
      simp only [hr]
      omega
    · simp only [hr, hsize] at h
      cases h
    · simp only [hr, hzero, List.length_nil]
      rw [if_neg fun h => hcount' h.2]
  · refine ⟨fun _ hno => absurd hlinked hno, fun _ hzero => ?_, fun _ => ?_, fun hno => absurd hlinked hno⟩
    · rw [commit_seg] at hzero
      exact absurd hzero hcount'
    · rw [commit_seg]
      exact (hinv.linkage g).log_linked hlinked

/-- The process leaves its slot, and the last one frees the modules. -/
theorem Inv.leave (hinv : s.Inv) (halive : s.Alive p) (hpc : s.pc p = .leaving g) :
    ((s.unregisterSlot p g).setPc p (if (s.seg g).count - 1 = 0 then .last g else .left g)).Inv := by
  have hholds : (s.pc p).holds = some g := by rw [hpc]; rfl
  have hreg : (s.pc p).registered = some g := by rw [hpc]; rfl
  have hlock := (hinv.lock g p).mpr hholds
  obtain ⟨i, hi, hslot⟩ := hinv.registered g p hreg
  have hfull := (hinv.slots g i p).mpr ⟨hi, hreg, hslot⟩
  obtain ⟨hpos, hsize⟩ := hinv.count_pos hreg
  obtain ⟨hcount, hfirsts, hblank, hfreed, hzeroed⟩ := hinv.seg g
  have hzero : (s.seg g).zeroed = [] := by
    rw [if_neg fun h => by omega] at hzeroed
    exact List.length_eq_zero_iff.mp hzeroed
  have hoccupied := occupied_clear hi hfull
  set pc : SegPc := if (s.seg g).count - 1 = 0 then .last g else .left g with hpc'
  set r : Segment := { s.seg g with
    count := (s.seg g).count - 1
    processes := Function.update (s.seg g).processes i none
    zeroed := if (s.seg g).count - 1 = 0 then (s.seg g).zeroed ++ [p] else (s.seg g).zeroed
    freed := if (s.seg g).count - 1 = 0 then (s.seg g).freed ++ [p] else (s.seg g).freed } with hr
  have heq : s.commit p g pc r (s.slotConfig p) s.linked = (s.unregisterSlot p g).setPc p pc := by
    simp [Smem.commit, unregisterSlot, setSeg, setPc, hr, hslot]
  have hpcholds : pc.holds = some g := by
    rw [hpc']
    split <;> rfl
  have hpcreg : pc.registered = none := by
    rw [hpc']
    split <;> rfl
  -- a dead process in the segment has another slot, so this one is not the last
  have hdead : ∀ q, (s.pc q).registered = some g → ¬ s.Alive q → q ≠ p ∧ (s.seg g).count - 1 ≠ 0 := by
    intro q hq hdead
    have hne : q ≠ p := fun h => hdead (h ▸ halive)
    obtain ⟨j, hj, hslotq⟩ := hinv.registered g q hq
    have hfullq := (hinv.slots g j q).mpr ⟨hj, hq, hslotq⟩
    have hji : j ≠ i := by
      rintro rfl
      rw [hfull] at hfullq
      exact hne (Option.some.inj hfullq).symm
    have hpos' : 0 < occupied (Function.update (s.seg g).processes i none) :=
      occupied_pos hj (by rw [Function.update_of_ne hji]; exact hfullq)
    refine ⟨hne, ?_⟩
    rw [hcount]
    omega
  have hlast : (s.seg g).count - 1 = 0 → s.linked = some g := by
    intro hone
    by_contra hno
    rcases (hinv.linkage g).unlinked hsize hno with h | ⟨q, hq, hqdead⟩
    · omega
    · exact (hdead q hq hqdead).2 hone
  rw [← heq]
  refine hinv.commit ⟨halive, hinv.open_lt p g (holds_segment hholds), holds_segment hholds,
    Or.inr (holds_segment hpcholds), Or.inr hlock, Or.inr ⟨hlock, hpcholds⟩, fun _ _ => Iff.rfl,
    fun j q => ?_, fun h => ?_, ?_, ?_, ?_⟩
  · have hslots := hinv.slots g j q
    by_cases hq : q = p
    · subst hq
      rw [if_pos rfl, hpcreg]
      refine iff_of_false (fun h => ?_) nofun
      by_cases hj : j = i
      · subst hj
        simp [hr] at h
      · simp only [hr, Function.update_of_ne hj] at h
        have := (hslots.mp h).2.2
        rw [hslot] at this
        exact hj (Option.some.inj this).symm
    · rw [if_neg hq]
      by_cases hj : j = i
      · subst hj
        simp [hr, hfull, Ne.symm hq]
      · simp [hr, hj]
  · rw [hpcreg] at h
    cases h
  · refine ⟨?_, hfirsts, fun h => ?_, ?_, ?_⟩
    · simp only [hr, hcount]
      omega
    · simp only [hr, hsize] at h
      cases h
    · simp only [hr, hfreed]
    · simp only [hr, hzero, hsize, true_and]
      split <;> rfl
  · refine ⟨fun _ hno => ?_, fun _ hzero' _ => ?_, fun hl => ?_, fun hno hnone => ?_⟩
    · rcases (hinv.linkage g).unlinked hsize hno with h | ⟨q, hq, hqdead⟩
      · omega
      · exact Or.inr ⟨q, (commit_registered (hdead q hq hqdead).1).trans hq, hqdead⟩
    · rw [commit_seg] at hzero'
      refine ⟨p, ?_⟩
      simp only [Smem.commit, Function.update_self, hpc']
      exact if_pos hzero'
    · rw [commit_seg]
      exact (hinv.linkage g).log_linked hl
    · have hnone' : s.NoneDied g := by
        intro q hq
        by_cases hqp : q = p
        · exact hqp ▸ halive
        · exact hnone q ((commit_registered hqp).trans hq)
      rw [commit_seg]
      have hlog := (hinv.linkage g).log_unlinked hno hnone'
      simp only [hr, hlog]
      rw [if_neg fun hone => hno (hlast hone)]
  · by_cases hone : (s.seg g).count - 1 = 0
    · rw [hpc', if_pos hone]
      refine ⟨hlast hone, ?_, ?_, ?_⟩
      · rw [commit_seg]
        exact hsize
      · rw [commit_seg]
        exact hone
      · rw [commit_seg]
        simp [hr, hone, hzero]
    · rw [hpc', if_neg hone]
      trivial

theorem initializeRest_none (hfull : freeSlot (s.seg g) = none) (hconfig : s.slotConfig p = none) :
    s.initializeRest p g = none := by
  unfold initializeRest
  unfold freeSlot at hfull ⊢
  simp only [hfull, if_pos hconfig]

/-- Other processes stay alive or dead when `/proc` changes under the pid of
a process that is the only living one there. -/
theorem alive_update {start : Option Nat} {q : ProcId} (hne : q ≠ p)
    (hp : s.stat p.pid = none ∨ s.Alive p) (hstart : start = none ∨ start = some p.start) :
    Function.update s.stat p.pid start q.pid = some q.start ↔ s.Alive q := by
  by_cases hpid : q.pid = p.pid
  · have hdiff : q.start ≠ p.start := by
      intro h
      exact hne (by cases q; cases p; simp_all)
    rw [hpid, Function.update_self, Alive, hpid]
    refine iff_of_false ?_ ?_
    · rcases hstart with rfl | rfl
      · nofun
      · exact fun h => hdiff (Option.some.inj h).symm
    · rcases hp with h | h
      · rw [h]
        nofun
      · rw [show s.stat p.pid = some p.start from h]
        exact fun h => hdiff (Option.some.inj h).symm
  · rw [Function.update_of_ne hpid]
    exact Iff.rfl

/-- A process dies that is outside of the two functions, or has aborted. -/
theorem Inv.die (hinv : s.Inv) (halive : s.Alive p) (hout : (s.pc p).outside ∨ s.pc p = .aborted) :
    Inv { s with stat := Function.update s.stat p.pid none } := by
  set s' : Smem := { s with stat := Function.update s.stat p.pid none } with hs'
  have hother : ∀ q, q ≠ p → (s'.Alive q ↔ s.Alive q) := fun q hne =>
    alive_update hne (Or.inr halive) (Or.inl rfl)
  have hself : ¬ s'.Alive p := by
    simp [Alive, hs']
  have hmono : ∀ q, s'.Alive q → s.Alive q := by
    intro q hq
    by_cases hne : q = p
    · exact hne ▸ halive
    · exact (hother q hne).mp hq
  refine ⟨hinv.lock, hinv.slots, hinv.registered, fun q hq hab => ?_, fun q hq => ?_, hinv.fresh,
    hinv.linked_lt, hinv.open_lt, fun q u hu => ?_, hinv.seg, fun g => ?_, fun q => ?_⟩
  · have hne : q ≠ p := by
      rintro rfl
      rcases hout with h | h
      · rw [show (s.pc q).outside = false from hq] at h
        cases h
      · exact hab h
    exact (hother q hne).mpr (hinv.busy q hq hab)
  · exact hinv.used q (hq.imp_right (hmono q))
  · exact ⟨(hinv.dead q u hu).1, fun h => (hinv.dead q u hu).2 (hmono u h)⟩
  · obtain ⟨hunlinked, hempty, hlog, hlog'⟩ := hinv.linkage g
    refine ⟨fun hsize hno => ?_, hempty, hlog, fun hno hnone => ?_⟩
    · exact (hunlinked hsize hno).imp_right fun ⟨q, hq, hdead⟩ => ⟨q, hq, fun h => hdead (hmono q h)⟩
    · exact hlog' hno fun q hq => hmono q (hnone q hq)
  · have hpc := hinv.pc q
    show s'.PcOk q (s.pc q)
    cases h : s.pc q with
    | stale g =>
        rw [h] at hpc
        obtain ⟨hl, u, hu, hdead⟩ := hpc
        exact ⟨hl, u, hu, fun h => hdead (hmono u h)⟩
    | _ =>
        rw [h] at hpc
        exact hpc

/-- A new process. -/
theorem Inv.spawn {slot : Option Nat} (hinv : s.Inv) (hnew : p ∉ s.used) (hfree : s.stat p.pid = none) :
    Inv { s with
      stat := Function.update s.stat p.pid (some p.start)
      used := p :: s.used
      slotConfig := Function.update s.slotConfig p slot } := by
  set s' : Smem := { s with
    stat := Function.update s.stat p.pid (some p.start)
    used := p :: s.used
    slotConfig := Function.update s.slotConfig p slot } with hs'
  have hidle : s.pc p = .idle := by
    by_contra h
    exact hnew (hinv.used p (Or.inl h))
  have halive : ∀ q ∈ s.used, s'.Alive q ↔ s.Alive q := fun q hq =>
    alive_update (fun h => hnew (h ▸ hq)) (Or.inl hfree) (Or.inr rfl)
  have hreg : ∀ q g, (s.pc q).registered = some g → q ≠ p ∧ q ∈ s.used := by
    intro q g hq
    have hpc : s.pc q ≠ .idle := by
      intro h
      rw [h] at hq
      cases hq
    have hused := hinv.used q (Or.inl hpc)
    exact ⟨fun h => hnew (h ▸ hused), hused⟩
  have hmembers : ∀ g, s.SameMembers s' g := fun g =>
    ⟨Iff.rfl, ⟨_, rfl⟩, fun _ => Iff.rfl, fun q hq => halive q (hreg q g hq).2⟩
  refine ⟨hinv.lock, fun g i q => ?_, fun g q hq => ?_, fun q hout hab => ?_, fun q hq => ?_,
    hinv.fresh, hinv.linked_lt, hinv.open_lt, fun q u hu => ?_, hinv.seg, fun g => ?_, fun q => ?_⟩
  · by_cases hne : q = p
    · subst hne
      have hno : (s.pc q).registered ≠ some g := fun h => (hreg q g h).1 rfl
      rw [show (s'.seg g).processes i = some q ↔ _ from hinv.slots g i q]
      exact iff_of_false (fun h => hno h.2.1) fun h => hno h.2.1
    · simpa [hs', hne] using hinv.slots g i q
  · have hne := (hreg q g hq).1
    simpa [hs', hne] using hinv.registered g q hq
  · have hpc : s.pc q ≠ .idle := by
      intro h
      rw [show s'.pc q = .idle from h] at hout
      cases hout
    exact (halive q (hinv.used q (Or.inl hpc))).mpr (hinv.busy q hout hab)
  · by_cases hne : q = p
    · exact hne ▸ List.mem_cons_self
    · refine List.mem_cons_of_mem p (hinv.used q (hq.imp_right fun h => ?_))
      exact (alive_update hne (Or.inl hfree) (Or.inr rfl)).mp h
  · obtain ⟨hu, hdead⟩ := hinv.dead q u hu
    exact ⟨List.mem_cons_of_mem p hu, fun h => hdead ((halive u hu).mp h)⟩
  · exact (hinv.linkage g).congr (hmembers g) fun q hq => hq
  · exact (hinv.pc q).congr rfl fun g _ => hmembers g

/-! ### Every step -/

/-- `nosv_abort` of a process that has a lock. -/
theorem Inv.abort (hinv : s.Inv) (halive : s.Alive p) (hholds : (s.pc p).holds = some g)
    (hreg : (s.pc p).registered = none) (hlast : s.pc p ≠ .last g) : (s.abort p g).Inv := by
  have hlock := (hinv.lock g p).mpr hholds
  have hmove : ((s.setLock g none).setPc p .aborted).Inv := by
    refine hinv.move .aborted none halive (holds_segment hholds) (Or.inl rfl) (Or.inr hlock)
      (Or.inl ⟨rfl, rfl⟩) ?_ hlast trivial
    rw [hreg]
    exact Iff.rfl
  exact hmove.die (p := p) halive (Or.inr (Function.update_self ..))

theorem Inv.procStep (hinv : s.Inv) (halive : s.Alive p) (hfree : s.SlotFree (.step p))
    (hstep : s.procStep p = some s') : s'.Inv := by
  unfold Smem.procStep at hstep
  have hok := hinv.pc p
  cases hpc : s.pc p with
  | idle => simp [hpc] at hstep
  | attached g => simp [hpc] at hstep
  | aborted => simp [hpc] at hstep
  | opening =>
      simp only [hpc] at hstep
      cases hlinked : s.linked with
      | none =>
          simp only [hlinked] at hstep
          obtain rfl := Option.some.inj hstep
          exact hinv.createFile halive hpc hlinked
      | some g =>
          simp only [hlinked] at hstep
          obtain rfl := Option.some.inj hstep
          have hmove := hinv.moveFree (.opened g) (s.deadAtCall p) halive (by rw [hpc]; rfl) rfl
            (by rw [hpc]; rfl) (fun h hh => by
              obtain rfl := Option.some.inj hh
              exact hinv.linked_lt g hlinked) (hinv.dead p)
          rwa [Function.update_eq_self] at hmove
  | opened g =>
      simp only [hpc] at hstep
      obtain ⟨hlock, hs⟩ := Option.ite_none_right_eq_some.mp hstep
      obtain rfl := Option.some.inj hs
      exact hinv.move (.locked g) (some p) halive (by rw [hpc]; rfl) (Or.inr rfl) (Or.inl hlock)
        (Or.inr ⟨rfl, rfl⟩) (by rw [hpc]; exact Iff.rfl) (by rw [hpc]; nofun) trivial
  | locked g =>
      simp only [hpc] at hstep
      have hmove : ∀ pc : SegPc, pc.holds = some g → pc.registered = none → s.PcOk p pc →
          (s.setPc p pc).Inv := fun pc hholds hreg =>
        hinv.moveLocked pc halive (by rw [hpc]; rfl) hholds (by rw [hpc, hreg]; exact Iff.rfl)
          (by rw [hpc]; nofun)
      split at hstep
      · obtain rfl := Option.some.inj hstep
        exact hmove (.retry g) rfl rfl trivial
      · rename_i hlinked
        have hlinked := not_not.mp hlinked
        split at hstep
        · rename_i hsize
          obtain rfl := Option.some.inj hstep
          exact hmove (.checking g 0) rfl rfl ⟨hlinked, hsize, fun j hj => absurd hj (Nat.not_lt_zero j)⟩
        · rename_i hsize
          obtain rfl := Option.some.inj hstep
          exact hmove (.first g) rfl rfl ⟨hlinked, by simpa using hsize⟩
  | checking g i =>
      simp only [hpc] at hstep
      rw [hpc] at hok
      obtain ⟨hlinked, hsize, hslots⟩ := hok
      have hmove : ∀ pc : SegPc, pc.holds = some g → pc.registered = none → s.PcOk p pc →
          (s.setPc p pc).Inv := fun pc hholds hreg =>
        hinv.moveLocked pc halive (by rw [hpc]; rfl) hholds (by rw [hpc, hreg]; exact Iff.rfl)
          (by rw [hpc]; nofun)
      -- one more slot that is empty or holds a living process
      have hnext : (∀ q, (s.seg g).processes i = some q → s.Alive q) →
          ∀ j < i + 1, ∀ q, (s.seg g).processes j = some q → q ∉ s.deadAtCall p := by
        intro hi j hj q hq hin
        by_cases hji : j = i
        · subst hji
          exact (hinv.dead p q hin).2 (hi q hq)
        · exact hslots j (by omega) q hq hin
      split at hstep
      · cases hq : (s.seg g).processes i with
        | none =>
            simp only [hq] at hstep
            obtain rfl := Option.some.inj hstep
            refine hmove (.checking g (i + 1)) rfl rfl ⟨hlinked, hsize, hnext fun q h => ?_⟩
            rw [hq] at h
            cases h
        | some q =>
            simp only [hq] at hstep
            split at hstep
            · rename_i hqalive
              obtain rfl := Option.some.inj hstep
              refine hmove (.checking g (i + 1)) rfl rfl ⟨hlinked, hsize, hnext fun u h => ?_⟩
              rw [hq] at h
              exact Option.some.inj h ▸ hqalive
            · rename_i hqdead
              obtain rfl := Option.some.inj hstep
              exact hmove (.stale g) rfl rfl ⟨hlinked, q, ((hinv.slots g i q).mp hq).2.1, hqdead⟩
      · rename_i hi
        obtain rfl := Option.some.inj hstep
        exact hmove (.rest g) rfl rfl ⟨hlinked, hsize, fun j hj => hslots j (by omega)⟩
  | stale g =>
      simp only [hpc] at hstep
      rw [hpc] at hok
      obtain ⟨hlinked, hdead⟩ := hok
      rw [if_neg (by rw [hlinked]; nofun)] at hstep
      obtain rfl := Option.some.inj hstep
      exact hinv.unlink (.retry g) (by rw [hpc]; rfl) halive rfl (by rw [hpc]; rfl) rfl hlinked
        (Or.inl hdead) fun _ => trivial
  | retry g =>
      simp only [hpc] at hstep
      obtain rfl := Option.some.inj hstep
      have hholds : (s.pc p).holds = some g := by rw [hpc]; rfl
      exact hinv.move .opening none halive (holds_segment hholds) (Or.inl rfl)
        (Or.inr ((hinv.lock g p).mpr hholds)) (Or.inl ⟨rfl, rfl⟩) (by rw [hpc]; exact Iff.rfl)
        (by rw [hpc]; nofun) trivial
  | first g =>
      simp only [hpc] at hstep
      obtain rfl := Option.some.inj hstep
      exact hinv.first halive hpc
  | rest g =>
      simp only [hpc] at hstep
      cases hslot : freeSlot (s.seg g) with
      | some i =>
          have hrest := initializeRest_some (p := p) hslot
          rw [hrest] at hstep
          obtain rfl := Option.some.inj hstep
          exact hinv.rest halive hpc hslot hrest
      | none =>
          simp only [SlotFree, hpc] at hfree
          have hconfig : s.slotConfig p = none := hfree.resolve_left fun h => h hslot
          have hrest : s.initializeRest p g = none := initializeRest_none hslot hconfig
          rw [hrest] at hstep
          obtain rfl := Option.some.inj hstep
          exact hinv.abort halive (by rw [hpc]; rfl) (by rw [hpc]; rfl) (by rw [hpc]; nofun)
  | returning g =>
      simp only [hpc] at hstep
      obtain rfl := Option.some.inj hstep
      have hholds : (s.pc p).holds = some g := by rw [hpc]; rfl
      exact hinv.move (.attached g) none halive (holds_segment hholds) (Or.inr rfl)
        (Or.inr ((hinv.lock g p).mpr hholds)) (Or.inl ⟨rfl, rfl⟩) (by rw [hpc]; exact Iff.rfl)
        (by rw [hpc]; nofun) trivial
  | closing g =>
      simp only [hpc] at hstep
      obtain ⟨hlock, hs⟩ := Option.ite_none_right_eq_some.mp hstep
      obtain rfl := Option.some.inj hs
      exact hinv.move (.leaving g) (some p) halive (by rw [hpc]; rfl) (Or.inr rfl) (Or.inl hlock)
        (Or.inr ⟨rfl, rfl⟩) (by rw [hpc]; exact Iff.rfl) (by rw [hpc]; nofun) trivial
  | leaving g =>
      simp only [hpc] at hstep
      obtain rfl := Option.some.inj hstep
      exact hinv.leave halive hpc
  | last g =>
      simp only [hpc] at hstep
      obtain rfl := Option.some.inj hstep
      rw [hpc] at hok
      obtain ⟨hlinked, -, hzero, hlog⟩ := hok
      exact hinv.unlink (.left g) (by rw [hpc]; rfl) halive rfl (by rw [hpc]; rfl) rfl hlinked
        (Or.inr ⟨hzero, hlog⟩) fun _ => trivial
  | left g =>
      simp only [hpc] at hstep
      obtain rfl := Option.some.inj hstep
      have hholds : (s.pc p).holds = some g := by rw [hpc]; rfl
      exact hinv.move .idle none halive (holds_segment hholds) (Or.inl rfl)
        (Or.inr ((hinv.lock g p).mpr hholds)) (Or.inl ⟨rfl, rfl⟩) (by rw [hpc]; exact Iff.rfl)
        (by rw [hpc]; nofun) trivial

theorem Inv.step {op : SmemOp} (hinv : s.Inv) (hfree : s.SlotFree op) (hstep : s.step op = some s') :
    s'.Inv := by
  cases op with
  | spawn p parent =>
      obtain ⟨⟨hnew, hstat, -⟩, hs⟩ := Option.ite_none_right_eq_some.mp hstep
      obtain rfl := Option.some.inj hs
      exact hinv.spawn hnew hstat
  | create p =>
      obtain ⟨⟨halive, hpc⟩, hs⟩ := Option.ite_none_right_eq_some.mp hstep
      obtain rfl := Option.some.inj hs
      refine hinv.moveFree .opening _ halive (by rw [hpc]; rfl) rfl (by rw [hpc]; rfl) nofun fun q hq => ?_
      obtain ⟨hin, hdead⟩ := List.mem_filter.mp hq
      exact ⟨hin, of_decide_eq_true hdead⟩
  | unregister p =>
      simp only [Smem.step] at hstep
      cases hpc : s.pc p with
      | attached g =>
          simp only [hpc] at hstep
          obtain ⟨halive, hs⟩ := Option.ite_none_right_eq_some.mp hstep
          obtain rfl := Option.some.inj hs
          have hmove := hinv.moveFree (.closing g) (s.deadAtCall p) halive (by rw [hpc]; rfl) rfl
            (by rw [hpc]; rfl) (fun h hh => hinv.open_lt p h (by rw [hpc]; exact hh)) (hinv.dead p)
          rwa [Function.update_eq_self] at hmove
      | _ => simp [hpc] at hstep
  | die p =>
      obtain ⟨⟨halive, hout⟩, hs⟩ := Option.ite_none_right_eq_some.mp hstep
      obtain rfl := Option.some.inj hs
      exact hinv.die halive (Or.inl hout)
  | step p =>
      obtain ⟨halive, hs⟩ := Option.ite_none_right_eq_some.mp hstep
      exact hinv.procStep halive hfree hs

/-! ## Every run -/

theorem inv_start : start.Inv := by
  have hblank : Segment.empty.Ok := by
    refine ⟨?_, rfl, fun _ => ⟨fun _ => rfl, rfl⟩, rfl, rfl⟩
    simp [Segment.empty, occupied]
  refine ⟨fun g p => ?_, fun g i p => ?_, nofun, fun p hout => ?_, fun p hp => ?_, fun _ _ => rfl, nofun,
    nofun, nofun, fun _ => hblank, fun g => ⟨nofun, nofun, nofun, fun _ _ => rfl⟩, fun _ => trivial⟩
  · exact iff_of_false nofun nofun
  · exact iff_of_false nofun fun h => by cases h.2.1
  · cases hout
  · rcases hp with h | h
    · exact absurd rfl h
    · cases h

theorem run_next {op : SmemOp} {ops : List SmemOp} (h : s.step op = some s') :
    run step s (op :: ops) = run step s' ops := by
  rw [run, h]

theorem step_alive (halive : s.Alive p) : s.step (.step p) = s.procStep p := if_pos halive

/-- The loop of `check_processes_correct` passes over living processes. -/
theorem run_check {m : Nat} :
    ∀ {s : Smem} {i : Nat}, i + m = maxPids → s.Alive p → s.pc p = .checking g i →
      (∀ j < maxPids, ∀ q, (s.seg g).processes j = some q → s.Alive q) →
      run step s (List.replicate (m + 1) (.step p)) = some (s.setPc p (.rest g)) := by
  induction m with
  | zero =>
      intro s i hi halive hpc _
      have hstep : s.step (.step p) = some (s.setPc p (.rest g)) := by
        rw [step_alive halive]
        simp only [Smem.procStep, hpc]
        rw [if_neg (by omega)]
      rw [List.replicate_one, run_next hstep]
      rfl
  | succ m ih =>
      intro s i hi halive hpc hall
      have hstep : s.step (.step p) = some (s.setPc p (.checking g (i + 1))) := by
        rw [step_alive halive]
        simp only [Smem.procStep, hpc]
        rw [if_pos (by omega)]
        cases hq : (s.seg g).processes i with
        | none => rfl
        | some q => exact if_pos (hall i (by omega) q hq)
      have hrest := ih (s := s.setPc p (.checking g (i + 1))) (i := i + 1) (by omega) halive
        (Function.update_self ..) hall
      rw [List.replicate_succ, run_next hstep, hrest]
      simp [setPc, Function.update_idem]

/-- A call of `segment_create`, up to where the process takes a slot. -/
theorem run_toRest (halive : s.Alive p) (hpc : s.pc p = .idle) (hlinked : s.linked = some g)
    (hlock : (s.seg g).lock = none) (hsize : (s.seg g).size = true)
    (hall : ∀ j < maxPids, ∀ q, (s.seg g).processes j = some q → s.Alive q) :
    run step s (.create p :: List.replicate (maxPids + 4) (.step p)) =
      some { (s.setLock g (some p)).setPc p (.rest g) with
        deadAtCall := Function.update s.deadAtCall p (s.used.filter fun q => ¬ s.Alive q) } := by
  have hcreate : s.step (.create p) = some { s.setPc p .opening with
      deadAtCall := Function.update s.deadAtCall p (s.used.filter fun q => ¬ s.Alive q) } :=
    if_pos ⟨halive, hpc⟩
  set s₁ : Smem := { s.setPc p .opening with
    deadAtCall := Function.update s.deadAtCall p (s.used.filter fun q => ¬ s.Alive q) } with hs₁
  have hopen : s₁.step (.step p) = some (s₁.setPc p (.opened g)) := by
    rw [step_alive (show s₁.Alive p from halive)]
    simp [Smem.procStep, hs₁, setPc, hlinked]
  set s₂ := s₁.setPc p (.opened g) with hs₂
  have htake : s₂.step (.step p) = some ((s₂.setLock g (some p)).setPc p (.locked g)) := by
    rw [step_alive (show s₂.Alive p from halive)]
    simp [Smem.procStep, hs₁, hs₂, setPc, hlock]
  set s₃ := (s₂.setLock g (some p)).setPc p (.locked g) with hs₃
  have hstat : s₃.step (.step p) = some (s₃.setPc p (.checking g 0)) := by
    rw [step_alive (show s₃.Alive p from halive)]
    simp [Smem.procStep, hs₁, hs₂, hs₃, setPc, setLock, setSeg, hlinked, hsize]
  have hcheck := run_check (s := s₃.setPc p (.checking g 0)) (Nat.zero_add maxPids)
    (show (s₃.setPc p (.checking g 0)).Alive p from halive) (Function.update_self ..) (by
      intro j hj q hq
      exact hall j hj q (by simpa [hs₁, hs₂, hs₃, setPc, setLock, setSeg] using hq))
  rw [run_next hcreate, List.replicate_succ, run_next hopen, List.replicate_succ, run_next htake,
    List.replicate_succ, run_next hstat, hcheck]
  simp [hs₁, hs₂, hs₃, setPc, setLock, setSeg, Function.update_idem]

/-- A call of `segment_create` in a segment with a free slot. -/
theorem run_join {i : Nat} (halive : s.Alive p) (hpc : s.pc p = .idle) (hlinked : s.linked = some g)
    (hlock : (s.seg g).lock = none) (hsize : (s.seg g).size = true)
    (hall : ∀ j < maxPids, ∀ q, (s.seg g).processes j = some q → s.Alive q)
    (hfree : freeSlot (s.seg g) = some i) :
    ∃ ops s', run step s ops = some s' ∧ s'.linked = some g ∧ (s'.seg g).size = true
      ∧ (s'.seg g).lock = none
      ∧ (s'.seg g).processes = Function.update (s.seg g).processes i (some p)
      ∧ s'.stat = s.stat ∧ s'.used = s.used
      ∧ ∀ q, q ≠ p → s'.pc q = s.pc q ∧ s'.slotConfig q = s.slotConfig q := by
  have hcall := run_toRest halive hpc hlinked hlock hsize hall
  set s₁ : Smem := { (s.setLock g (some p)).setPc p (.rest g) with
    deadAtCall := Function.update s.deadAtCall p (s.used.filter fun q => ¬ s.Alive q) } with hs₁
  have hseg : s₁.seg g = { s.seg g with lock := some p } := by simp [hs₁, setPc, setLock, setSeg]
  have hfree' : freeSlot (s₁.seg g) = some i := by
    rw [hseg]
    exact hfree
  have hrest := step_alive (show s₁.Alive p from halive)
  simp only [Smem.procStep, show s₁.pc p = .rest g from Function.update_self ..,
    initializeRest_some hfree'] at hrest
  set s₂ : Smem := Smem.setPc { s₁.setSeg g { s₁.seg g with
      count := (s₁.seg g).count + 1
      rests := (s₁.seg g).rests + 1
      processes := Function.update (s₁.seg g).processes i (some p) } with
    slotConfig := Function.update s₁.slotConfig p (some i) } p (.returning g) with hs₂
  have hreturn : s₂.step (.step p) = some ((s₂.setLock g none).setPc p (.attached g)) := by
    rw [step_alive (show s₂.Alive p from halive)]
    simp only [Smem.procStep, show s₂.pc p = .returning g from Function.update_self ..]
  refine ⟨_ ++ [.step p, .step p], _, (run_append _ hcall).trans
    ((run_next hrest).trans ((run_next hreturn).trans rfl)), ?_⟩
  refine ⟨hlinked, ?_, ?_, ?_, rfl, rfl, fun q hq => ?_⟩
  · simp [hs₂, setPc, setLock, setSeg, hseg, hsize]
  · simp [setPc, setLock, setSeg]
  · simp [hs₂, setPc, setLock, setSeg, hseg]
  · simp [hs₁, hs₂, setPc, setLock, setSeg, Function.update_of_ne hq]

/-- The processes of the crowd. Process `0` is the one that comes back. -/
def filler (k : Nat) : ProcId := ⟨k, 1⟩

/-- Processes `1` to `k` are attached to the segment, and process `0` has
the slot number of its first life. -/
structure Crowd (s : Smem) (k : Nat) : Prop where
  linked : s.linked = some 1
  size : (s.seg 1).size = true
  lock : (s.seg 1).lock = none
  slots : ∀ i, (s.seg 1).processes i = if i < k then some (filler (i + 1)) else none
  alive : ∀ j ≤ k, s.Alive (filler j)
  fresh : ∀ j, k < j → filler j ∉ s.used ∧ s.stat j = none ∧ s.pc (filler j) = .idle
  zero : s.pc (filler 0) = .idle ∧ s.slotConfig (filler 0) = some 0

theorem Crowd.slot_alive {k : Nat} (h : s.Crowd k) {j : Nat} {q : ProcId}
    (hq : (s.seg 1).processes j = some q) : s.Alive q := by
  rw [h.slots] at hq
  split at hq
  · cases hq
    exact h.alive _ (by omega)
  · cases hq

theorem Crowd.freeSlot {k : Nat} (h : s.Crowd k) (hk : k < maxPids) :
    freeSlot (s.seg 1) = some k := by
  unfold Smem.freeSlot
  rw [List.find?_range_eq_some]
  refine ⟨by simp [h.slots], List.mem_range.mpr hk, fun j hj => ?_⟩
  simp [h.slots, hj]

theorem Crowd.full (h : s.Crowd maxPids) : Smem.freeSlot (s.seg 1) = none := by
  unfold Smem.freeSlot
  rw [List.find?_eq_none]
  intro i hi
  simp [h.slots, List.mem_range.mp hi]

/-- One more process joins the crowd. -/
theorem Crowd.join {k : Nat} (h : s.Crowd k) (hk : k < maxPids) :
    ∃ ops s', run step s ops = some s' ∧ s'.Crowd (k + 1) := by
  obtain ⟨hnew, hstat, hpc⟩ := h.fresh (k + 1) (Nat.lt_succ_self k)
  have hspawn : s.step (.spawn (filler (k + 1)) none) = some { s with
      stat := Function.update s.stat (k + 1) (some 1)
      used := filler (k + 1) :: s.used
      slotConfig := Function.update s.slotConfig (filler (k + 1)) none } :=
    if_pos ⟨hnew, hstat, rfl⟩
  set s₁ : Smem := { s with
    stat := Function.update s.stat (k + 1) (some 1)
    used := filler (k + 1) :: s.used
    slotConfig := Function.update s.slotConfig (filler (k + 1)) none } with hs₁
  have hkeep : ∀ q, s.Alive q → s₁.Alive q := fun q hq => by
    have hne : q.pid ≠ k + 1 := fun heq => by
      rw [Alive, heq, hstat] at hq
      cases hq
    exact (Function.update_of_ne hne ..).trans hq
  have halive : s₁.Alive (filler (k + 1)) := Function.update_self ..
  have hne : ∀ {j : Nat}, j ≠ k + 1 → filler j ≠ filler (k + 1) := fun hj heq =>
    hj (congrArg ProcId.pid heq)
  obtain ⟨ops, s', hrun, hlinked, hsize, hlock, hslots, hstat', hused, hframe⟩ :=
    run_join halive hpc h.linked h.lock h.size (fun j _ q hq => hkeep q (h.slot_alive hq))
      (h.freeSlot hk)
  refine ⟨.spawn (filler (k + 1)) none :: ops, s', (run_next hspawn).trans hrun, hlinked, hsize, hlock,
    fun i => ?_, fun j hj => ?_, fun j hj => ⟨?_, ?_, ?_⟩, ?_, ?_⟩
  · rw [hslots, Function.update_apply, show (s₁.seg 1).processes = (s.seg 1).processes from rfl,
      h.slots]
    by_cases hi : i = k
    · simp [hi]
    · rw [if_neg hi]
      exact if_congr (by omega) rfl rfl
  · rw [Alive, hstat']
    by_cases hjk : j = k + 1
    · rw [hjk]
      exact halive
    · exact hkeep _ (h.alive j (by omega))
  · rw [hused]
    exact List.not_mem_cons_of_ne_of_not_mem (hne (by omega)) (h.fresh j (by omega)).1
  · rw [hstat']
    exact (Function.update_of_ne (by omega) ..).trans (h.fresh j (by omega)).2.1
  · rw [(hframe _ (hne (by omega))).1]
    exact (h.fresh j (by omega)).2.2
  · rw [(hframe _ (hne (by omega))).1]
    exact h.zero.1
  · rw [(hframe _ (hne (by omega))).2]
    exact (Function.update_of_ne (hne (by omega)) none s.slotConfig).trans h.zero.2

end Smem

end Nosv
