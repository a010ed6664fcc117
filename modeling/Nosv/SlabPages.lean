import Nosv.SlabPlaces

/-!
# Pages in the lists of their bucket

A page that is partly in use is in the list `partials` of its bucket, and
one that is not in use in the list `free`, unless a caller has taken it out
to use it. The lists change with the metadata of one page at a time.
-/

namespace Nosv

namespace Slab

open Teardown

/-! ## Lists with a counter -/

structure Clist.Ok (l : Clist) : Prop where
  nodup : l.items.Nodup
  cnt : l.cnt = l.items.length

namespace Clist

variable {l : Clist} {p q : Nat}

theorem Ok.add (h : l.Ok) (hp : p ∉ l.items) : (l.add p).Ok :=
  ⟨List.nodup_cons.mpr ⟨hp, h.nodup⟩, by rw [Clist.add, h.cnt, List.length_cons]⟩

theorem Ok.remove (h : l.Ok) (hp : p ∈ l.items) : (l.remove p).Ok :=
  ⟨h.nodup.erase p, by rw [Clist.remove, h.cnt, List.length_erase_of_mem hp]⟩

theorem mem_add : q ∈ (l.add p).items ↔ q = p ∨ q ∈ l.items := List.mem_cons

theorem Ok.mem_remove (h : l.Ok) : q ∈ (l.remove p).items ↔ q ≠ p ∧ q ∈ l.items := h.nodup.mem_erase_iff

theorem Ok.items_ne (h : l.Ok) (hne : l.empty = false) : l.items ≠ [] := by
  intro hnil
  have hcnt := h.cnt
  rw [hnil] at hcnt
  unfold empty at hne
  rw [hcnt] at hne
  cases hne

/-- What `clist_pop_front` does to a list with elements -/
structure Pops (l : Clist) (p : Nat) (l' : Clist) : Prop where
  pop : l.popFront = (some p, l')
  head : p ∈ l.items
  mem : ∀ q, q ∈ l'.items ↔ q ≠ p ∧ q ∈ l.items
  ok : l'.Ok
  cnt : l'.cnt ≤ l.cnt

theorem Ok.pops (h : l.Ok) (hpop : l.popFront = (some p, l')) : Pops l p l' := by
  unfold popFront at hpop
  cases hitems : l.items with
  | nil =>
      rw [hitems] at hpop
      cases hpop
  | cons r items =>
      rw [hitems] at hpop
      obtain ⟨hp, rfl⟩ := Prod.mk.inj hpop
      obtain rfl := Option.some.inj hp
      have hnodup := h.nodup
      rw [hitems] at hnodup
      obtain ⟨hnotin, hnodup⟩ := List.nodup_cons.mp hnodup
      refine ⟨by rw [popFront, hitems], hitems ▸ List.mem_cons_self, fun q => ?_, ⟨hnodup, ?_⟩, Nat.sub_le _ _⟩
      · rw [hitems, List.mem_cons]
        constructor
        · intro hq
          refine ⟨?_, Or.inr hq⟩
          rintro rfl
          exact hnotin hq
        · rintro ⟨hne, heq | hq⟩
          · exact absurd heq hne
          · exact hq
      · rw [h.cnt, hitems, List.length_cons, Nat.add_sub_cancel]

end Clist

/-! ## Pages -/

variable {ε : Type}

/-- What holds of page `p` -/
structure PageAt (s : State ε) (p : Nat) : Prop where
  bucket : ∀ b, s.owner p = some b → b < slabBuckets
  partials : ∀ b, p ∈ (s.buckets b).partials.items ↔
    s.owner p = some b ∧ 0 < (s.metadata p).inuseChunks ∧ (s.metadata p).inuseChunks < bucketObjinpage b
  free : ∀ b, p ∈ (s.buckets b).free.items ↔
    s.owner p = some b ∧ (s.metadata p).inuseChunks = 0 ∧ ∀ a, (s.pcs a).poppedPage ≠ some (b, p)
  freePages : p ∈ s.freePages.items → s.owner p = none
  popped : ∀ a b, (s.pcs a).poppedPage = some (b, p) → s.owner p = some b ∧ (s.metadata p).inuseChunks = 0
  popped_unique : ∀ a a' b b', (s.pcs a).poppedPage = some (b, p) → (s.pcs a').poppedPage = some (b', p) → a = a'
  outside : ∀ a, (s.pcs a).outside = some p → s.owner p = none ∧ p ∉ s.freePages.items
  outside_unique : ∀ a a', (s.pcs a).outside = some p → (s.pcs a').outside = some p → a = a'

structure Pages (s : State ε) : Prop where
  page : ∀ p, PageAt s p
  partials : ∀ b, (s.buckets b).partials.Ok
  free : ∀ b, (s.buckets b).free.Ok
  free_le : ∀ b, (s.buckets b).free.cnt ≤ maxFreePages
  freePages : s.freePages.Ok

variable {s s' : State ε} {a : Caller ε} {pc : Pc} {p q b size : Nat}

/-- Nothing changes for page `q`. -/
structure SamePage (s s' : State ε) (q : Nat) : Prop where
  owner : s'.owner q = s.owner q
  inuse : (s'.metadata q).inuseChunks = (s.metadata q).inuseChunks
  partials : ∀ b, q ∈ (s'.buckets b).partials.items ↔ q ∈ (s.buckets b).partials.items
  free : ∀ b, q ∈ (s'.buckets b).free.items ↔ q ∈ (s.buckets b).free.items
  freePages : q ∈ s'.freePages.items ↔ q ∈ s.freePages.items
  popped : ∀ a b, (s'.pcs a).poppedPage = some (b, q) ↔ (s.pcs a).poppedPage = some (b, q)
  outside : ∀ a, (s'.pcs a).outside = some q ↔ (s.pcs a).outside = some q

theorem PageAt.congr (h : PageAt s q) (hs : SamePage s s' q) : PageAt s' q where
  bucket b hb := h.bucket b (hs.owner ▸ hb)
  partials b := by rw [hs.partials, hs.owner, hs.inuse, h.partials]
  free b := by
    rw [hs.free, hs.owner, hs.inuse, h.free]
    refine and_congr_right fun _ => and_congr_right fun _ => forall_congr' fun a => ?_
    exact not_congr (hs.popped a b).symm
  freePages hq := hs.owner ▸ h.freePages (hs.freePages.mp hq)
  popped a b hq := by
    rw [hs.owner, hs.inuse]
    exact h.popped a b ((hs.popped a b).mp hq)
  popped_unique a a' b b' hq hq' := h.popped_unique a a' b b' ((hs.popped a b).mp hq) ((hs.popped a' b').mp hq')
  outside a hq := by
    rw [hs.owner, hs.freePages]
    exact h.outside a ((hs.outside a).mp hq)
  outside_unique a a' hq hq' := h.outside_unique a a' ((hs.outside a).mp hq) ((hs.outside a').mp hq')

/-- The pages that a caller has, for it and all others -/
theorem popped_iff [DecidableEq ε] (hpcs : s'.pcs = Function.update s.pcs a pc)
    (hq : ∀ b, pc.poppedPage = some (b, q) ↔ (s.pcs a).poppedPage = some (b, q)) (a' : Caller ε) (b : Nat) :
    (s'.pcs a').poppedPage = some (b, q) ↔ (s.pcs a').poppedPage = some (b, q) := by
  rw [hpcs, Function.update_apply]
  split
  · next ha => rw [hq, ha]
  · exact Iff.rfl

theorem outside_iff [DecidableEq ε] (hpcs : s'.pcs = Function.update s.pcs a pc)
    (hq : pc.outside = some q ↔ (s.pcs a).outside = some q) (a' : Caller ε) :
    (s'.pcs a').outside = some q ↔ (s.pcs a').outside = some q := by
  rw [hpcs, Function.update_apply]
  split
  · next ha => rw [hq, ha]
  · exact Iff.rfl

/-- A step that changes no page and no list -/
structure SamePages (s s' : State ε) : Prop where
  owner : s'.owner = s.owner
  inuse : ∀ q, (s'.metadata q).inuseChunks = (s.metadata q).inuseChunks
  partials : ∀ b, (s'.buckets b).partials = (s.buckets b).partials
  free : ∀ b, (s'.buckets b).free = (s.buckets b).free
  freePages : s'.freePages = s.freePages
  popped : ∀ a, (s'.pcs a).poppedPage = (s.pcs a).poppedPage
  outside : ∀ a, (s'.pcs a).outside = (s.pcs a).outside

theorem Pages.congr (h : Pages s) (hs : SamePages s s') : Pages s' where
  page q := (h.page q).congr
    { owner := by rw [hs.owner]
      inuse := hs.inuse q
      partials := fun b => by rw [hs.partials]
      free := fun b => by rw [hs.free]
      freePages := by rw [hs.freePages]
      popped := fun a b => by rw [hs.popped]
      outside := fun a => by rw [hs.outside] }
  partials b := by rw [hs.partials]; exact h.partials b
  free b := by rw [hs.free]; exact h.free b
  free_le b := by rw [hs.free]; exact h.free_le b
  freePages := by rw [hs.freePages]; exact h.freePages

/-! ## One page changes -/

/-- Caller `a` goes on to `pc`, and no page but `p` changes. -/
structure Touches [DecidableEq ε] (s s' : State ε) (a : Caller ε) (pc : Pc) (p : Nat) : Prop where
  owner : ∀ q, q ≠ p → s'.owner q = s.owner q
  inuse : ∀ q, q ≠ p → (s'.metadata q).inuseChunks = (s.metadata q).inuseChunks
  partials : ∀ q, q ≠ p → ∀ b, q ∈ (s'.buckets b).partials.items ↔ q ∈ (s.buckets b).partials.items
  free : ∀ q, q ≠ p → ∀ b, q ∈ (s'.buckets b).free.items ↔ q ∈ (s.buckets b).free.items
  freePages : ∀ q, q ≠ p → (q ∈ s'.freePages.items ↔ q ∈ s.freePages.items)
  pcs : s'.pcs = Function.update s.pcs a pc
  popped : ∀ q, q ≠ p → ∀ b, pc.poppedPage = some (b, q) ↔ (s.pcs a).poppedPage = some (b, q)
  outside : ∀ q, q ≠ p → (pc.outside = some q ↔ (s.pcs a).outside = some q)
  partialsOk : ∀ b, (s'.buckets b).partials.Ok
  freeOk : ∀ b, (s'.buckets b).free.Ok
  free_le : ∀ b, (s'.buckets b).free.cnt ≤ maxFreePages
  freePagesOk : s'.freePages.Ok

variable [DecidableEq ε]

theorem Pages.touch (h : Pages s) (ht : Touches s s' a pc p) (hp : PageAt s' p) : Pages s' := by
  refine ⟨fun q => ?_, ht.partialsOk, ht.freeOk, ht.free_le, ht.freePagesOk⟩
  by_cases hq : q = p
  · exact hq ▸ hp
  · exact (h.page q).congr
      { owner := ht.owner q hq
        inuse := ht.inuse q hq
        partials := ht.partials q hq
        free := ht.free q hq
        freePages := ht.freePages q hq
        popped := popped_iff ht.pcs (ht.popped q hq)
        outside := outside_iff ht.pcs (ht.outside q hq) }

omit [DecidableEq ε] in
/-- Page `p` has blocks in use. -/
theorem PageAt.used (hown : s.owner p = some b) (hb : b < slabBuckets) (hpos : 0 < (s.metadata p).inuseChunks)
    (hpartials : ∀ c, p ∈ (s.buckets c).partials.items ↔ c = b ∧ (s.metadata p).inuseChunks < bucketObjinpage b)
    (hfree : ∀ c, p ∉ (s.buckets c).free.items) (hfreePages : p ∉ s.freePages.items)
    (hpopped : ∀ a c, (s.pcs a).poppedPage ≠ some (c, p)) (houtside : ∀ a, (s.pcs a).outside ≠ some p) : PageAt s p where
  bucket c hc := Option.some.inj (hown.symm.trans hc) ▸ hb
  partials c := by
    rw [hpartials, hown, Option.some.injEq, eq_comm]
    constructor
    · rintro ⟨rfl, hlt⟩
      exact ⟨rfl, hpos, hlt⟩
    · rintro ⟨rfl, -, hlt⟩
      exact ⟨rfl, hlt⟩
  free c := iff_of_false (hfree c) fun hin => absurd hin.2.1 (Nat.ne_of_gt hpos)
  freePages hin := absurd hin hfreePages
  popped a c hc := absurd hc (hpopped a c)
  popped_unique a _ c _ hc := absurd hc (hpopped a c)
  outside a hin := absurd hin (houtside a)
  outside_unique a a' hin := absurd hin (houtside a)

omit [DecidableEq ε] in
/-- Page `p` is in its bucket, with no block in use; whoever is about to take
its blocks has taken it out of the list. -/
theorem PageAt.unused (hown : s.owner p = some b) (hb : b < slabBuckets) (hzero : (s.metadata p).inuseChunks = 0)
    (hpartials : ∀ c, p ∉ (s.buckets c).partials.items)
    (hfree : ∀ c, p ∈ (s.buckets c).free.items ↔ c = b ∧ ∀ a, (s.pcs a).poppedPage ≠ some (b, p))
    (hfreePages : p ∉ s.freePages.items) (hpopped : ∀ a c, (s.pcs a).poppedPage = some (c, p) → c = b)
    (hunique : ∀ a a', (s.pcs a).poppedPage = some (b, p) → (s.pcs a').poppedPage = some (b, p) → a = a')
    (houtside : ∀ a, (s.pcs a).outside ≠ some p) : PageAt s p where
  bucket c hc := Option.some.inj (hown.symm.trans hc) ▸ hb
  partials c := iff_of_false (hpartials c) fun hin => absurd hzero (Nat.ne_of_gt hin.2.1)
  free c := by
    rw [hfree, hown, Option.some.injEq, eq_comm]
    constructor
    · rintro ⟨rfl, hnobody⟩
      exact ⟨rfl, hzero, hnobody⟩
    · rintro ⟨rfl, -, hnobody⟩
      exact ⟨rfl, hnobody⟩
  freePages hin := absurd hin hfreePages
  popped a c hc := ⟨by rw [hown, hpopped a c hc], hzero⟩
  popped_unique a a' c c' hc hc' := by
    obtain rfl := hpopped a c hc
    obtain rfl := hpopped a' c' hc'
    exact hunique a a' hc hc'
  outside a hin := absurd hin (houtside a)
  outside_unique a a' hin := absurd hin (houtside a)

omit [DecidableEq ε] in
/-- Page `p` is in no bucket. -/
theorem PageAt.unowned (hown : s.owner p = none) (hpartials : ∀ c, p ∉ (s.buckets c).partials.items)
    (hfree : ∀ c, p ∉ (s.buckets c).free.items) (hpopped : ∀ a c, (s.pcs a).poppedPage ≠ some (c, p))
    (houtside : ∀ a, (s.pcs a).outside = some p → p ∉ s.freePages.items)
    (hunique : ∀ a a', (s.pcs a).outside = some p → (s.pcs a').outside = some p → a = a') : PageAt s p where
  bucket c hc := absurd (hown.symm.trans hc).symm (Option.some_ne_none c)
  partials c := iff_of_false (hpartials c) fun hin => absurd (hown.symm.trans hin.1).symm (Option.some_ne_none c)
  free c := iff_of_false (hfree c) fun hin => absurd (hown.symm.trans hin.1).symm (Option.some_ne_none c)
  freePages _ := hown
  popped a c hc := absurd hc (hpopped a c)
  popped_unique a _ c _ hc := absurd hc (hpopped a c)
  outside a hin := ⟨hown, houtside a hin⟩
  outside_unique a a' hin hin' := hunique a a' hin hin'

omit [DecidableEq ε] in
theorem PageAt.notMem_partials (h : PageAt s p) (hown : s.owner p = none) (c : Nat) : p ∉ (s.buckets c).partials.items :=
  fun hin => absurd (hown.symm.trans ((h.partials c).mp hin).1).symm (Option.some_ne_none c)

omit [DecidableEq ε] in
theorem PageAt.notMem_free (h : PageAt s p) (hown : s.owner p = none) (c : Nat) : p ∉ (s.buckets c).free.items :=
  fun hin => absurd (hown.symm.trans ((h.free c).mp hin).1).symm (Option.some_ne_none c)

omit [DecidableEq ε] in
theorem PageAt.notMem_freePages (h : PageAt s p) (hown : s.owner p = some b) : p ∉ s.freePages.items :=
  fun hin => Option.some_ne_none b (hown.symm.trans (h.freePages hin))

omit [DecidableEq ε] in
theorem PageAt.not_outside (h : PageAt s p) (hown : s.owner p = some b) (a : Caller ε) : (s.pcs a).outside ≠ some p :=
  fun hin => Option.some_ne_none b (hown.symm.trans (h.outside a hin).1)

omit [DecidableEq ε] in
theorem PageAt.not_popped (h : PageAt s p) (hpos : 0 < (s.metadata p).inuseChunks) (a : Caller ε) (c : Nat) :
    (s.pcs a).poppedPage ≠ some (c, p) :=
  fun hin => Nat.ne_of_gt hpos (h.popped a c hin).2

omit [DecidableEq ε] in
theorem PageAt.not_popped_of_unowned (h : PageAt s p) (hown : s.owner p = none) (a : Caller ε) (c : Nat) :
    (s.pcs a).poppedPage ≠ some (c, p) :=
  fun hin => Option.some_ne_none c ((h.popped a c hin).1.symm.trans hown)

omit [DecidableEq ε] in
theorem PageAt.partials_iff (h : PageAt s p) (hown : s.owner p = some b) (hpos : 0 < (s.metadata p).inuseChunks) (c : Nat) :
    p ∈ (s.buckets c).partials.items ↔ c = b ∧ (s.metadata p).inuseChunks < bucketObjinpage b := by
  rw [h.partials, hown, Option.some.injEq, eq_comm]
  constructor
  · rintro ⟨rfl, -, hlt⟩
    exact ⟨rfl, hlt⟩
  · rintro ⟨rfl, hlt⟩
    exact ⟨rfl, hpos, hlt⟩

/-! ## Steps -/

omit [DecidableEq ε] in
theorem buckets_setBucket (s : State ε) (b c : Nat) (B : CacheBucket) :
    (s.setBucket b B).buckets c = if c = b then B else s.buckets c := Function.update_apply ..

/-- What becomes of the lists of bucket `b` when only page `p` comes or goes -/
structure Relists (s : State ε) (b p : Nat) (B : CacheBucket) : Prop where
  partials : ∀ q, q ≠ p → (q ∈ B.partials.items ↔ q ∈ (s.buckets b).partials.items)
  free : ∀ q, q ≠ p → (q ∈ B.free.items ↔ q ∈ (s.buckets b).free.items)
  partialsOk : B.partials.Ok
  freeOk : B.free.Ok
  free_le : B.free.cnt ≤ maxFreePages

theorem Pages.touches (h : Pages s) {B : CacheBucket}
    (hbuckets : ∀ c, s'.buckets c = if c = b then B else s.buckets c) (hlists : Relists s b p B)
    (howner : ∀ q, q ≠ p → s'.owner q = s.owner q)
    (hinuse : ∀ q, q ≠ p → (s'.metadata q).inuseChunks = (s.metadata q).inuseChunks)
    (hfreePages : s'.freePages = s.freePages) (hpcs : s'.pcs = Function.update s.pcs a pc)
    (hpopped : ∀ q, q ≠ p → ∀ c, pc.poppedPage = some (c, q) ↔ (s.pcs a).poppedPage = some (c, q))
    (houtside : ∀ q, q ≠ p → (pc.outside = some q ↔ (s.pcs a).outside = some q)) : Touches s s' a pc p where
  owner := howner
  inuse := hinuse
  partials q hq c := by
    rw [hbuckets]
    split
    · next hc => exact hc ▸ hlists.partials q hq
    · exact Iff.rfl
  free q hq c := by
    rw [hbuckets]
    split
    · next hc => exact hc ▸ hlists.free q hq
    · exact Iff.rfl
  freePages q _ := by rw [hfreePages]
  pcs := hpcs
  popped := hpopped
  outside := houtside
  partialsOk c := by
    rw [hbuckets]
    split
    · exact hlists.partialsOk
    · exact h.partials c
  freeOk c := by
    rw [hbuckets]
    split
    · exact hlists.freeOk
    · exact h.free c
  free_le c := by
    rw [hbuckets]
    split
    · exact hlists.free_le
    · exact h.free_le c
  freePagesOk := hfreePages ▸ h.freePages

omit [DecidableEq ε] in
theorem free_same {B : CacheBucket} (hbuckets : ∀ c, s'.buckets c = if c = b then B else s.buckets c)
    (hfree : B.free = (s.buckets b).free) (c : Nat) : (s'.buckets c).free = (s.buckets c).free := by
  rw [hbuckets]
  split
  · next hc => rw [hfree, hc]
  · rfl

omit [DecidableEq ε] in
theorem partials_same {B : CacheBucket} (hbuckets : ∀ c, s'.buckets c = if c = b then B else s.buckets c)
    (hpartials : B.partials = (s.buckets b).partials) (c : Nat) : (s'.buckets c).partials = (s.buckets c).partials := by
  rw [hbuckets]
  split
  · next hc => rw [hpartials, hc]
  · rfl

/-- Caller `a` goes on without a page in hand, and nobody else has page `p`. -/
theorem PageAt.nobody_popped (h : PageAt s p) (hpos : 0 < (s.metadata p).inuseChunks)
    (hpcs : s'.pcs = Function.update s.pcs a pc) (hpc : pc.poppedPage = none) (a' : Caller ε) (c : Nat) :
    (s'.pcs a').poppedPage ≠ some (c, p) := by
  rw [hpcs, Function.update_apply]
  split
  · rw [hpc]
    exact Ne.symm (Option.some_ne_none _)
  · exact h.not_popped hpos a' c

theorem PageAt.nobody_outside (h : PageAt s p) (hown : s.owner p = some b)
    (hpcs : s'.pcs = Function.update s.pcs a pc) (hpc : pc.outside = none) (a' : Caller ε) :
    (s'.pcs a').outside ≠ some p := by
  rw [hpcs, Function.update_apply]
  split
  · rw [hpc]
    exact Ne.symm (Option.some_ne_none _)
  · exact h.not_outside hown a'

/-- The first page of `partials` is taken, with its free blocks. -/
theorem Pages.takePartial (h : Pages s) {l' : Clist} (hpop : Clist.Pops (s.buckets b).partials p l')
    (hpopped : (s.pcs a).poppedPage = none) (houtside : (s.pcs a).outside = none) :
    Pages ((s.setBucket b { s.buckets b with partials := l' }).takePage a b size p) := by
  have hat := h.page p
  obtain ⟨hown, hpos, hlt⟩ := (hat.partials b).mp hpop.head
  have hfour := four_le_bucketObjinpage (hat.bucket b hown)
  obtain ⟨s', hs'⟩ : ∃ s', s' = (s.setBucket b { s.buckets b with partials := l' }).takePage a b size p := ⟨_, rfl⟩
  have hbuckets : ∀ c, s'.buckets c = if c = b then { s.buckets b with partials := l' } else s.buckets c := by
    rw [hs']
    exact fun c => buckets_setBucket s b c _
  have hmeta : s'.metadata = Function.update s.metadata p ⟨none, bucketObjinpage b⟩ := by rw [hs']; rfl
  have hfree := free_same hbuckets rfl
  have ht : Touches s s' a (.taken b size p (s.metadata p).freelist) p :=
    h.touches hbuckets
      ⟨fun q hq => (hpop.mem q).trans (and_iff_right hq), fun _ _ => Iff.rfl, hpop.ok, h.free b, h.free_le b⟩
      (fun q _ => by rw [hs']; rfl) (fun q hq => by rw [hmeta, Function.update_of_ne hq]) (by rw [hs']; rfl)
      (by rw [hs']; rfl) (fun q _ c => by rw [hpopped]; rfl) (fun q _ => by rw [houtside]; rfl)
  rw [← hs']
  have hinuse : (s'.metadata p).inuseChunks = bucketObjinpage b := by rw [hmeta, Function.update_self]
  refine h.touch ht (PageAt.used (b := b) (by rw [hs']; exact hown) (hat.bucket b hown) (by rw [hinuse]; omega) (fun c => ?_)
    (fun c => ?_) ?_ (hat.nobody_popped hpos ht.pcs rfl) (hat.nobody_outside hown ht.pcs rfl))
  · rw [hinuse]
    refine iff_of_false (fun hin => ?_) fun hlast => Nat.lt_irrefl _ hlast.2
    rw [hbuckets] at hin
    split at hin
    · exact ((hpop.mem p).mp hin).1 rfl
    · next hc => exact hc ((hat.partials_iff hown hpos c).mp hin).1
  · rw [hfree, hat.free]
    exact fun hin => Nat.ne_of_gt hpos hin.2.1
  · rw [hs']
    exact hat.notMem_freePages hown

/-- The first page of `free` is taken out of the list. -/
theorem Pages.popFree (h : Pages s) {l' : Clist} (hpop : Clist.Pops (s.buckets b).free p l')
    (hpopped : (s.pcs a).poppedPage = none) (houtside : (s.pcs a).outside = none) :
    Pages ((s.setBucket b { s.buckets b with free := l' }).goto a (.popped b size p)) := by
  have hat := h.page p
  obtain ⟨hown, hzero, hnobody⟩ := (hat.free b).mp hpop.head
  obtain ⟨s', hs'⟩ : ∃ s', s' = (s.setBucket b { s.buckets b with free := l' }).goto a (.popped b size p) := ⟨_, rfl⟩
  have hbuckets : ∀ c, s'.buckets c = if c = b then { s.buckets b with free := l' } else s.buckets c := by
    rw [hs']
    exact fun c => buckets_setBucket s b c _
  have hpartials := partials_same hbuckets rfl
  have hother : ∀ q, q ≠ p → ∀ c, (Pc.popped b size p).poppedPage = some (c, q) ↔ (s.pcs a).poppedPage = some (c, q) := by
    intro q hq c
    rw [hpopped]
    refine iff_of_false (fun heq => ?_) (Ne.symm (Option.some_ne_none _))
    exact hq (Prod.mk.inj (Option.some.inj heq)).2.symm
  have ht : Touches s s' a (.popped b size p) p :=
    h.touches hbuckets
      ⟨fun _ _ => Iff.rfl, fun q hq => (hpop.mem q).trans (and_iff_right hq), h.partials b, hpop.ok,
        Nat.le_trans hpop.cnt (h.free_le b)⟩
      (fun q _ => by rw [hs']; rfl) (fun q _ => by rw [hs']; rfl) (by rw [hs']; rfl) (by rw [hs']; rfl) hother
      (fun q _ => by rw [houtside]; rfl)
  -- nobody else has the page
  have hself : ∀ a' c, (s'.pcs a').poppedPage = some (c, p) ↔ a' = a ∧ c = b := by
    intro a' c
    rw [ht.pcs, Function.update_apply]
    split
    · next ha =>
        constructor
        · intro heq
          exact ⟨ha, (Prod.mk.inj (Option.some.inj heq)).1.symm⟩
        · rintro ⟨-, rfl⟩
          rfl
    · next ha =>
        refine iff_of_false (fun heq => ?_) fun heq => ha heq.1
        obtain rfl := Option.some.inj (hown.symm.trans (hat.popped a' c heq).1)
        exact hnobody a' heq
  rw [← hs']
  refine h.touch ht (PageAt.unused (b := b) (by rw [hs']; exact hown) (hat.bucket b hown) (by rw [hs']; exact hzero)
    (fun c => ?_) (fun c => ?_) ?_ (fun a' c hc => ((hself a' c).mp hc).2)
    (fun a' a'' hc hc' => ((hself a' b).mp hc).1.trans ((hself a'' b).mp hc').1.symm)
    (hat.nobody_outside hown ht.pcs rfl))
  · rw [hpartials, hat.partials]
    exact fun hin => Nat.ne_of_gt hin.2.1 hzero
  · refine iff_of_false (fun hin => ?_) fun hall => hall.2 a ((hself a b).mpr ⟨rfl, rfl⟩)
    rw [hbuckets] at hin
    split at hin
    · exact ((hpop.mem p).mp hin).1 rfl
    · next hc => exact hc (Option.some.inj (((hat.free c).mp hin).1.symm.trans hown))
  · rw [hs']
    exact hat.notMem_freePages hown

/-- The blocks of a page that has been taken out of `free`, or is new, are taken. -/
theorem Pages.take (h : Pages s) (hpc : s.pcs a = .popped b size p) : Pages (s.takePage a b size p) := by
  have hat := h.page p
  obtain ⟨hown, hzero⟩ := hat.popped a b (by rw [hpc]; rfl)
  have hfour := four_le_bucketObjinpage (hat.bucket b hown)
  obtain ⟨s', hs'⟩ : ∃ s', s' = s.takePage a b size p := ⟨_, rfl⟩
  have hmeta : s'.metadata = Function.update s.metadata p ⟨none, bucketObjinpage b⟩ := by rw [hs']; rfl
  have hinuse : (s'.metadata p).inuseChunks = bucketObjinpage b := by rw [hmeta, Function.update_self]
  have ht : Touches s s' a (.taken b size p (s.metadata p).freelist) p :=
    { owner := fun q _ => by rw [hs']; rfl
      inuse := fun q hq => by rw [hmeta, Function.update_of_ne hq]
      partials := fun q _ c => by rw [hs']; rfl
      free := fun q _ c => by rw [hs']; rfl
      freePages := fun q _ => by rw [hs']; rfl
      pcs := by rw [hs']; rfl
      popped := fun q hq c => by
        rw [hpc]
        refine iff_of_false (Ne.symm (Option.some_ne_none _)) fun heq => ?_
        exact hq (Prod.mk.inj (Option.some.inj heq)).2.symm
      outside := fun q _ => by rw [hpc]; rfl
      partialsOk := by rw [hs']; exact h.partials
      freeOk := by rw [hs']; exact h.free
      free_le := by rw [hs']; exact h.free_le
      freePagesOk := by rw [hs']; exact h.freePages }
  rw [← hs']
  refine h.touch ht (PageAt.used (b := b) (by rw [hs']; exact hown) (hat.bucket b hown) (by rw [hinuse]; omega) (fun c => ?_)
    (fun c => ?_) ?_ (fun a' c => ?_) fun a' => ?_)
  · rw [hinuse, hs']
    refine iff_of_false (fun hin => ?_) fun hlast => Nat.lt_irrefl _ hlast.2
    exact Nat.ne_of_gt ((hat.partials c).mp hin).2.1 hzero
  · rw [hs']
    intro hin
    obtain ⟨hc, -, hnobody⟩ := (hat.free c).mp hin
    obtain rfl := Option.some.inj (hown.symm.trans hc)
    exact hnobody a (by rw [hpc]; rfl)
  · rw [hs']
    exact hat.notMem_freePages hown
  · rw [ht.pcs, Function.update_apply]
    split
    · exact Ne.symm (Option.some_ne_none _)
    · next ha => exact fun hin => ha (hat.popped_unique a' a c b hin (by rw [hpc]; rfl))
  · rw [ne_eq, outside_iff ht.pcs (by rw [hpc]; rfl)]
    exact hat.not_outside hown a'

/-- The first page of the backbone is taken. -/
theorem Pages.balloc (h : Pages s) {l' : Clist} (hpop : Clist.Pops s.freePages p l')
    (hpopped : (s.pcs a).poppedPage = none) (houtside : (s.pcs a).outside = none) :
    Pages ({ s with freePages := l' }.goto a (.fresh b size p)) := by
  have hat := h.page p
  have hown := hat.freePages hpop.head
  obtain ⟨s', hs'⟩ : ∃ s', s' = { s with freePages := l' }.goto a (.fresh b size p) := ⟨_, rfl⟩
  have hfreePages : s'.freePages = l' := by rw [hs']; rfl
  have ht : Touches s s' a (.fresh b size p) p :=
    { owner := fun q _ => by rw [hs']; rfl
      inuse := fun q _ => by rw [hs']; rfl
      partials := fun q _ c => by rw [hs']; rfl
      free := fun q _ c => by rw [hs']; rfl
      freePages := fun q hq => by
        rw [hfreePages, hpop.mem]
        exact and_iff_right hq
      pcs := by rw [hs']; rfl
      popped := fun q _ c => by rw [hpopped]; rfl
      outside := fun q hq => by
        rw [houtside]
        exact iff_of_false (fun heq => hq (Option.some.inj heq).symm) (Ne.symm (Option.some_ne_none _))
      partialsOk := by rw [hs']; exact h.partials
      freeOk := by rw [hs']; exact h.free
      free_le := by rw [hs']; exact h.free_le
      freePagesOk := hfreePages ▸ hpop.ok }
  have honly : ∀ a', (s'.pcs a').outside = some p → a' = a := by
    intro a' hin
    rw [ht.pcs, Function.update_apply] at hin
    split at hin
    · next ha => exact ha
    · exact absurd hpop.head (hat.outside a' hin).2
  rw [← hs']
  refine h.touch ht (PageAt.unowned (by rw [hs']; exact hown) (by rw [hs']; exact hat.notMem_partials hown)
    (by rw [hs']; exact hat.notMem_free hown) (fun a' c => ?_) (fun _ _ hin => ?_)
    fun a' a'' hin hin' => (honly a' hin).trans (honly a'' hin').symm)
  · rw [ne_eq, popped_iff ht.pcs fun c => by rw [hpopped]; rfl]
    exact hat.not_popped_of_unowned hown a' c
  · rw [hfreePages] at hin
    exact ((hpop.mem p).mp hin).1 rfl

/-- `bucket_initialize_page` -/
theorem Pages.initializePage (h : Pages s) (hpc : s.pcs a = .fresh b size p) (hb : b < slabBuckets)
    {memory : Nat → Option Nat} :
    Pages ({ s.setPage p ⟨some (s.addr p), 0⟩ with
      memory := memory, owner := Function.update s.owner p (some b) }.goto a (.popped b size p)) := by
  have hat := h.page p
  obtain ⟨hown, hnotin⟩ := hat.outside a (by rw [hpc]; rfl)
  obtain ⟨s', hs'⟩ : ∃ s', s' = { s.setPage p ⟨some (s.addr p), 0⟩ with
      memory := memory, owner := Function.update s.owner p (some b) }.goto a (.popped b size p) := ⟨_, rfl⟩
  have howner : s'.owner = Function.update s.owner p (some b) := by rw [hs']; rfl
  have hmeta : s'.metadata = Function.update s.metadata p ⟨some (s.addr p), 0⟩ := by rw [hs']; rfl
  have ht : Touches s s' a (.popped b size p) p :=
    { owner := fun q hq => by rw [howner, Function.update_of_ne hq]
      inuse := fun q hq => by rw [hmeta, Function.update_of_ne hq]
      partials := fun q _ c => by rw [hs']; rfl
      free := fun q _ c => by rw [hs']; rfl
      freePages := fun q _ => by rw [hs']; rfl
      pcs := by rw [hs']; rfl
      popped := fun q hq c => by
        rw [hpc]
        refine iff_of_false (fun heq => ?_) (Ne.symm (Option.some_ne_none _))
        exact hq (Prod.mk.inj (Option.some.inj heq)).2.symm
      outside := fun q hq => by
        rw [hpc]
        exact iff_of_false (Ne.symm (Option.some_ne_none _)) fun heq => hq (Option.some.inj heq).symm
      partialsOk := by rw [hs']; exact h.partials
      freeOk := by rw [hs']; exact h.free
      free_le := by rw [hs']; exact h.free_le
      freePagesOk := by rw [hs']; exact h.freePages }
  have hself : ∀ a' c, (s'.pcs a').poppedPage = some (c, p) ↔ a' = a ∧ c = b := by
    intro a' c
    rw [ht.pcs, Function.update_apply]
    split
    · next ha =>
        constructor
        · intro heq
          exact ⟨ha, (Prod.mk.inj (Option.some.inj heq)).1.symm⟩
        · rintro ⟨-, rfl⟩
          rfl
    · next ha => exact iff_of_false (hat.not_popped_of_unowned hown a' c) fun heq => ha heq.1
  rw [← hs']
  refine h.touch ht (PageAt.unused (b := b) (by rw [howner, Function.update_self]) hb
    (by rw [hmeta, Function.update_self]) (by rw [hs']; exact hat.notMem_partials hown) (fun c => ?_)
    (by rw [hs']; exact hnotin) (fun a' c hc => ((hself a' c).mp hc).2)
    (fun a' a'' hc hc' => ((hself a' b).mp hc).1.trans ((hself a'' b).mp hc').1.symm) fun a' => ?_)
  · refine iff_of_false (fun hin => ?_) fun hall => hall.2 a ((hself a b).mpr ⟨rfl, rfl⟩)
    rw [hs'] at hin
    exact hat.notMem_free hown c hin
  · rw [ht.pcs, Function.update_apply]
    split
    · exact Ne.symm (Option.some_ne_none _)
    · next ha => exact fun hin => ha (hat.outside_unique a' a hin (by rw [hpc]; rfl))

/-- `bfree` -/
theorem Pages.bfree (h : Pages s) (hpc : s.pcs a = .returning p) :
    Pages ({ s with freePages := s.freePages.add p }.goto a .idle) := by
  have hat := h.page p
  obtain ⟨hown, hnotin⟩ := hat.outside a (by rw [hpc]; rfl)
  obtain ⟨s', hs'⟩ : ∃ s', s' = { s with freePages := s.freePages.add p }.goto a .idle := ⟨_, rfl⟩
  have hfreePages : s'.freePages = s.freePages.add p := by rw [hs']; rfl
  have ht : Touches s s' a .idle p :=
    { owner := fun q _ => by rw [hs']; rfl
      inuse := fun q _ => by rw [hs']; rfl
      partials := fun q _ c => by rw [hs']; rfl
      free := fun q _ c => by rw [hs']; rfl
      freePages := fun q hq => by
        rw [hfreePages, Clist.mem_add]
        exact or_iff_right hq
      pcs := by rw [hs']; rfl
      popped := fun q _ c => by rw [hpc]; rfl
      outside := fun q hq => by
        rw [hpc]
        exact iff_of_false (Ne.symm (Option.some_ne_none _)) fun heq => hq (Option.some.inj heq).symm
      partialsOk := by rw [hs']; exact h.partials
      freeOk := by rw [hs']; exact h.free
      free_le := by rw [hs']; exact h.free_le
      freePagesOk := hfreePages ▸ h.freePages.add hnotin }
  have hnobody : ∀ a', (s'.pcs a').outside ≠ some p := by
    intro a'
    rw [ht.pcs, Function.update_apply]
    split
    · exact Ne.symm (Option.some_ne_none _)
    · next ha => exact fun hin => ha (hat.outside_unique a' a hin (by rw [hpc]; rfl))
  rw [← hs']
  refine h.touch ht (PageAt.unowned (by rw [hs']; exact hown) (by rw [hs']; exact hat.notMem_partials hown)
    (by rw [hs']; exact hat.notMem_free hown) (fun a' c => ?_) (fun a' hin => absurd hin (hnobody a'))
    fun a' a'' hin => absurd hin (hnobody a'))
  rw [ne_eq, popped_iff ht.pcs fun c => by rw [hpc]; rfl]
  exact hat.not_popped_of_unowned hown a' c

/-! ## A block comes back to its page -/

omit [DecidableEq ε] in
theorem PageAt.notMem_free_of_used (h : PageAt s p) (hpos : 0 < (s.metadata p).inuseChunks) (c : Nat) :
    p ∉ (s.buckets c).free.items := fun hin => Nat.ne_of_gt hpos ((h.free c).mp hin).2.1

/-- The last block comes back, and the page stays in the bucket. -/
theorem Pages.lastBack (h : Pages s) {obj : Nat} (hown : s.owner p = some b) (hlast : (s.metadata p).inuseChunks = 1)
    (hpopped : (s.pcs a).poppedPage = none) (houtside : (s.pcs a).outside = none)
    (hroom : (s.buckets b).free.cnt < maxFreePages) :
    Pages (((s.setPage p ⟨some obj, 0⟩).setBucket b { s.buckets b with
      partials := (s.buckets b).partials.remove p, free := (s.buckets b).free.add p }).goto a .idle) := by
  have hat := h.page p
  have hpos : 0 < (s.metadata p).inuseChunks := by omega
  have hfour := four_le_bucketObjinpage (hat.bucket b hown)
  have hin := (hat.partials_iff hown hpos b).mpr ⟨rfl, by omega⟩
  have hnot := hat.notMem_free_of_used hpos b
  obtain ⟨s', hs'⟩ : ∃ s', s' = ((s.setPage p ⟨some obj, 0⟩).setBucket b { s.buckets b with
      partials := (s.buckets b).partials.remove p, free := (s.buckets b).free.add p }).goto a .idle := ⟨_, rfl⟩
  have hbuckets : ∀ c, s'.buckets c = if c = b then { s.buckets b with
      partials := (s.buckets b).partials.remove p, free := (s.buckets b).free.add p } else s.buckets c := by
    rw [hs']
    exact fun c => buckets_setBucket _ b c _
  have hmeta : s'.metadata = Function.update s.metadata p ⟨some obj, 0⟩ := by rw [hs']; rfl
  have ht : Touches s s' a .idle p :=
    h.touches hbuckets
      ⟨fun q hq => ((h.partials b).mem_remove).trans (and_iff_right hq),
        fun q hq => Clist.mem_add.trans (or_iff_right hq), (h.partials b).remove hin, (h.free b).add hnot, hroom⟩
      (fun q _ => by rw [hs']; rfl) (fun q hq => by rw [hmeta, Function.update_of_ne hq]) (by rw [hs']; rfl)
      (by rw [hs']; rfl) (fun q _ c => by rw [hpopped]; rfl) (fun q _ => by rw [houtside]; rfl)
  have hnobody := hat.nobody_popped hpos ht.pcs rfl
  rw [← hs']
  refine h.touch ht (PageAt.unused (b := b) (by rw [hs']; exact hown) (hat.bucket b hown)
    (by rw [hmeta, Function.update_self]) (fun c hc => ?_) (fun c => ?_) ?_ (fun a' c hc => absurd hc (hnobody a' c))
    (fun a' _ hc => absurd hc (hnobody a' b)) (hat.nobody_outside hown ht.pcs rfl))
  · rw [hbuckets] at hc
    split at hc
    · exact ((h.partials b).mem_remove.mp hc).1 rfl
    · next hne => exact hne ((hat.partials_iff hown hpos c).mp hc).1
  · rw [hbuckets]
    split
    · next hc => exact iff_of_true (Clist.mem_add.mpr (Or.inl rfl)) ⟨hc, fun a' => hnobody a' b⟩
    · next hc => exact iff_of_false (hat.notMem_free_of_used hpos c) fun hall => hc hall.1
  · rw [hs']
    exact hat.notMem_freePages hown

/-- The last block comes back, and the page leaves the bucket. -/
theorem Pages.lastBack_full (h : Pages s) {obj : Nat} (hown : s.owner p = some b)
    (hlast : (s.metadata p).inuseChunks = 1) (hpopped : (s.pcs a).poppedPage = none)
    (houtside : (s.pcs a).outside = none) :
    Pages ({ (s.setPage p ⟨some obj, 0⟩).setBucket b { s.buckets b with
        partials := (s.buckets b).partials.remove p } with
      owner := Function.update s.owner p none }.goto a (.returning p)) := by
  have hat := h.page p
  have hpos : 0 < (s.metadata p).inuseChunks := by omega
  have hfour := four_le_bucketObjinpage (hat.bucket b hown)
  have hin := (hat.partials_iff hown hpos b).mpr ⟨rfl, by omega⟩
  obtain ⟨s', hs'⟩ : ∃ s', s' = { (s.setPage p ⟨some obj, 0⟩).setBucket b { s.buckets b with
        partials := (s.buckets b).partials.remove p } with
      owner := Function.update s.owner p none }.goto a (.returning p) := ⟨_, rfl⟩
  have hbuckets : ∀ c, s'.buckets c = if c = b then { s.buckets b with
      partials := (s.buckets b).partials.remove p } else s.buckets c := by
    rw [hs']
    exact fun c => buckets_setBucket _ b c _
  have hmeta : s'.metadata = Function.update s.metadata p ⟨some obj, 0⟩ := by rw [hs']; rfl
  have howner : s'.owner = Function.update s.owner p none := by rw [hs']; rfl
  have hfree := free_same hbuckets rfl
  have ht : Touches s s' a (.returning p) p :=
    h.touches hbuckets
      ⟨fun q hq => ((h.partials b).mem_remove).trans (and_iff_right hq), fun _ _ => Iff.rfl,
        (h.partials b).remove hin, h.free b, h.free_le b⟩
      (fun q hq => by rw [howner, Function.update_of_ne hq]) (fun q hq => by rw [hmeta, Function.update_of_ne hq])
      (by rw [hs']; rfl) (by rw [hs']; rfl) (fun q _ c => by rw [hpopped]; rfl) fun q hq => by
        rw [houtside]
        exact iff_of_false (fun heq => hq (Option.some.inj heq).symm) (Ne.symm (Option.some_ne_none _))
  have honly : ∀ a', (s'.pcs a').outside = some p → a' = a := by
    intro a' ha
    rw [ht.pcs, Function.update_apply] at ha
    split at ha
    · next heq => exact heq
    · exact absurd ha (hat.not_outside hown a')
  rw [← hs']
  refine h.touch ht (PageAt.unowned (by rw [howner, Function.update_self]) (fun c hc => ?_) (fun c => ?_)
    (hat.nobody_popped hpos ht.pcs rfl) (fun _ _ => ?_) fun a' a'' ha ha' => (honly a' ha).trans (honly a'' ha').symm)
  · rw [hbuckets] at hc
    split at hc
    · exact ((h.partials b).mem_remove.mp hc).1 rfl
    · next hne => exact hne ((hat.partials_iff hown hpos c).mp hc).1
  · rw [hfree]
    exact hat.notMem_free_of_used hpos c
  · rw [hs']
    exact hat.notMem_freePages hown

/-- A block comes back to a page that keeps others in use; the page was full
before, and comes to `partials`, or is there already. -/
theorem Pages.someBack (h : Pages s) (obj : Nat) (hown : s.owner p = some b)
    (hsome : 1 < (s.metadata p).inuseChunks) (hle : (s.metadata p).inuseChunks ≤ bucketObjinpage b)
    (hpopped : (s.pcs a).poppedPage = none) (houtside : (s.pcs a).outside = none) {l' : Clist}
    (hl' : l' = if (s.metadata p).inuseChunks = bucketObjinpage b then (s.buckets b).partials.add p
      else (s.buckets b).partials) :
    Pages (((s.setPage p ⟨some obj, (s.metadata p).inuseChunks - 1⟩).setBucket b { s.buckets b with
      partials := l' }).goto a .idle) := by
  have hat := h.page p
  have hpos : 0 < (s.metadata p).inuseChunks := by omega
  obtain ⟨s', hs'⟩ : ∃ s', s' = ((s.setPage p ⟨some obj, (s.metadata p).inuseChunks - 1⟩).setBucket b { s.buckets b with
      partials := l' }).goto a .idle := ⟨_, rfl⟩
  have hbuckets : ∀ c, s'.buckets c = if c = b then { s.buckets b with partials := l' } else s.buckets c := by
    rw [hs']
    exact fun c => buckets_setBucket _ b c _
  have hmeta : s'.metadata = Function.update s.metadata p ⟨some obj, (s.metadata p).inuseChunks - 1⟩ := by rw [hs']; rfl
  have hfree := free_same hbuckets rfl
  have hmem : ∀ q, q ∈ l'.items ↔ q = p ∨ q ∈ (s.buckets b).partials.items := by
    intro q
    rw [hl']
    split
    · exact Clist.mem_add
    · next hne =>
        refine (or_iff_right_of_imp ?_).symm
        rintro rfl
        exact (hat.partials_iff hown hpos b).mpr ⟨rfl, by omega⟩
  have hok : l'.Ok := by
    rw [hl']
    split
    · next heq => exact (h.partials b).add fun hin => by have := (hat.partials_iff hown hpos b).mp hin; omega
    · exact h.partials b
  have ht : Touches s s' a .idle p :=
    h.touches hbuckets
      ⟨fun q hq => (hmem q).trans (or_iff_right hq), fun _ _ => Iff.rfl, hok, h.free b, h.free_le b⟩
      (fun q _ => by rw [hs']; rfl) (fun q hq => by rw [hmeta, Function.update_of_ne hq]) (by rw [hs']; rfl)
      (by rw [hs']; rfl) (fun q _ c => by rw [hpopped]; rfl) (fun q _ => by rw [houtside]; rfl)
  have hinuse : (s'.metadata p).inuseChunks = (s.metadata p).inuseChunks - 1 := by rw [hmeta, Function.update_self]
  rw [← hs']
  refine h.touch ht (PageAt.used (b := b) (by rw [hs']; exact hown) (hat.bucket b hown) (by rw [hinuse]; omega) (fun c => ?_)
    (fun c => ?_) ?_ (hat.nobody_popped hpos ht.pcs rfl) (hat.nobody_outside hown ht.pcs rfl))
  · rw [hbuckets, hinuse]
    split
    · next hc => exact iff_of_true ((hmem p).mpr (Or.inl rfl)) ⟨hc, by omega⟩
    · next hc => exact iff_of_false (fun hin => hc ((hat.partials_iff hown hpos c).mp hin).1) fun hall => hc hall.1
  · rw [hfree]
    exact hat.notMem_free_of_used hpos c
  · rw [hs']
    exact hat.notMem_freePages hown

omit [DecidableEq ε] in
theorem setBucket_same (s : State ε) (b : Nat) : s.setBucket b (s.buckets b) = s := by
  unfold State.setBucket
  rw [Function.update_eq_self]

/-- What `bucket_free` does to the lists after its exchange -/
theorem Pages.freed (h : Pages s) {obj inuse : Nat} (hown : s.owner p = some b)
    (hinuse : (s.metadata p).inuseChunks = inuse) (hpos : 1 ≤ inuse) (hle : inuse ≤ bucketObjinpage b)
    (hpopped : (s.pcs a).poppedPage = none) (houtside : (s.pcs a).outside = none) :
    Pages ((s.setPage p ⟨some obj, inuse - 1⟩).freed a b inuse p) := by
  unfold State.freed
  dsimp only
  split
  · next hone =>
      subst hone
      split
      · exact h.lastBack_full hown hinuse hpopped houtside
      · next hroom => exact h.lastBack hown hinuse hpopped houtside (Nat.lt_of_not_le hroom)
  · next hne =>
      subst hinuse
      have hback := h.someBack obj hown (by omega) hle hpopped houtside rfl
      split
      · next heq =>
          rw [if_pos heq] at hback
          exact hback
      · next hnot =>
          rw [if_neg hnot] at hback
          exact (setBucket_same (s.setPage p ⟨some obj, (s.metadata p).inuseChunks - 1⟩) b) ▸ hback

end Slab

end Nosv
