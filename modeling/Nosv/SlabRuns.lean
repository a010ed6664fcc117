import Nosv.Lib.Run
import Nosv.SlabPages

/-!
# Runs of the slab allocator

Whatever callers do, in any order, a block that is returned is not in use,
lies in one page and is as large as was asked for (`slab_sound`).
-/

namespace Nosv

open SList Run

namespace Slab

open Teardown

variable {ε : Type} {plat : Platform} {s s' : State ε} {a a' : Caller ε} {pc : Pc} {p q b c x size : Nat}

/-! ## Callers -/

/-- The callers and their buckets -/
structure Callers (plat : Platform) (s : State ε) : Prop where
  call : ∀ a b size, (s.pcs a).call = some (b, size) →
    b = bucketOf plat size ∧ plat.Fits size ∧ 2 ≤ size ∧ size < 18446744073709551616
  lock : ∀ e b, (s.pcs (.external e)).inside = some b → (s.buckets b).slowBucketLock = true
  lock_unique : ∀ e e' b, (s.pcs (.external e)).inside = some b → (s.pcs (.external e')).inside = some b → e = e'
  emptied : ∀ a b, (s.pcs a).emptied = some b → ((s.buckets b).at a.index).freelist = none
  hand : ∀ a, (s.pcs a).handPage ≠ none → (s.pcs a).hand ≠ none
  ready : ∀ a b size, s.pcs a = .allocating b size true → ((s.buckets b).at a.index).freelist ≠ none
  done : ∀ a b size, s.pcs a ≠ .done b size none

theorem Pc.inside_of_emptied (h : pc.emptied = some b) : pc.inside = some b := by
  cases pc <;> first | exact h | cases h

/-- Two callers that allocate from one bucket do so from different lists. -/
theorem Callers.apart (h : Callers plat s) (hne : a' ≠ a) (ha' : (s.pcs a').inside = some b)
    (ha : (s.pcs a).inside = some b ∨ ∃ i, a = .cpu i) : a'.index ≠ a.index := by
  intro heq
  cases a with
  | cpu i =>
      cases a' with
      | cpu j =>
          obtain rfl := Option.some.inj heq
          exact hne rfl
      | external e => cases heq
  | external e =>
      cases a' with
      | cpu j => cases heq
      | external e' =>
          rcases ha with ha | ⟨i, hi⟩
          · obtain rfl := h.lock_unique e' e b ha' ha
            exact hne rfl
          · cases hi

variable [DecidableEq ε]

/-- Caller `a` goes on to `pc`, and the others keep what they have. -/
structure Proceeds (plat : Platform) (s s' : State ε) (a : Caller ε) (pc : Pc) : Prop where
  pcs : s'.pcs = Function.update s.pcs a pc
  cache : ∀ a' b, a' ≠ a → (s.pcs a').inside = some b →
    ((s'.buckets b).at a'.index).freelist = ((s.buckets b).at a'.index).freelist
  lock : ∀ e b, Caller.external e ≠ a → (s.pcs (.external e)).inside = some b → (s'.buckets b).slowBucketLock = true
  call : ∀ b size, pc.call = some (b, size) →
    b = bucketOf plat size ∧ plat.Fits size ∧ 2 ≤ size ∧ size < 18446744073709551616
  inside : ∀ e b, a = .external e → pc.inside = some b → (s'.buckets b).slowBucketLock = true ∧
    ((s.pcs a).inside = some b ∨ (s.buckets b).slowBucketLock = false)
  emptied : ∀ b, pc.emptied = some b → ((s'.buckets b).at a.index).freelist = none
  hand : pc.handPage ≠ none → pc.hand ≠ none
  ready : ∀ b size, pc = .allocating b size true → ((s'.buckets b).at a.index).freelist ≠ none
  done : ∀ b size, pc ≠ .done b size none

theorem Callers.proceed (h : Callers plat s) (hp : Proceeds plat s s' a pc) : Callers plat s' := by
  have hself : s'.pcs a = pc := by rw [hp.pcs, Function.update_self]
  have hother : ∀ a', a' ≠ a → s'.pcs a' = s.pcs a' := fun a' ha => by rw [hp.pcs, Function.update_of_ne ha]
  -- whoever is inside was so before, but for `a`
  have honly : ∀ e e' b, Caller.external e = a → Caller.external e' ≠ a → (s'.pcs (.external e)).inside = some b →
      (s'.pcs (.external e')).inside = some b → e = e' := by
    intro e e' b he he' hin hin'
    rw [he, hself] at hin
    rw [hother _ he'] at hin'
    rcases (hp.inside e b he.symm hin).2 with hbefore | hfree
    · exact h.lock_unique e e' b (he ▸ hbefore) hin'
    · exact absurd ((h.lock e' b hin').symm.trans hfree) (by decide)
  refine ⟨fun a' b size hc => ?_, fun e b hin => ?_, fun e e' b hin hin' => ?_, fun a' b he => ?_, fun a' hh => ?_,
    fun a' b size hr => ?_, fun a' b size => ?_⟩
  · by_cases ha : a' = a
    · rw [ha, hself] at hc
      exact hp.call b size hc
    · rw [hother a' ha] at hc
      exact h.call a' b size hc
  · by_cases ha : Caller.external e = a
    · rw [ha, hself] at hin
      exact (hp.inside e b ha.symm hin).1
    · rw [hother _ ha] at hin
      exact hp.lock e b ha hin
  · by_cases ha : Caller.external e = a
    · by_cases ha' : Caller.external e' = a
      · exact Caller.external.inj (ha.trans ha'.symm)
      · exact honly e e' b ha ha' hin hin'
    · by_cases ha' : Caller.external e' = a
      · exact (honly e' e b ha' ha hin' hin).symm
      · rw [hother _ ha] at hin
        rw [hother _ ha'] at hin'
        exact h.lock_unique e e' b hin hin'
  · by_cases ha : a' = a
    · rw [ha, hself] at he
      rw [ha]
      exact hp.emptied b he
    · rw [hother a' ha] at he
      rw [hp.cache a' b ha (Pc.inside_of_emptied he)]
      exact h.emptied a' b he
  · by_cases ha : a' = a
    · rw [ha, hself] at hh ⊢
      exact hp.hand hh
    · rw [hother a' ha] at hh ⊢
      exact h.hand a' hh
  · by_cases ha : a' = a
    · rw [ha, hself] at hr
      rw [ha]
      exact hp.ready b size hr
    · rw [hother a' ha] at hr
      rw [hp.cache a' b ha (by rw [hr]; rfl)]
      exact h.ready a' b size hr
  · by_cases ha : a' = a
    · rw [ha, hself]
      exact hp.done b size
    · rw [hother a' ha]
      exact h.done a' b size

/-! ## Steps that move no block -/

structure Inv (plat : Platform) (s : State ε) : Prop where
  blocks : ∃ place, Blocks plat s place
  pages : Pages s
  callers : Callers plat s

/-- A step to `pc` that keeps all blocks where they are, and the buckets of all callers -/
structure Moves (s s' : State ε) (a : Caller ε) (pc : Pc) : Prop where
  pcs : s'.pcs = Function.update s.pcs a pc
  start : s'.pagesStart = s.pagesStart
  owner : s'.owner = s.owner
  live : s'.live = s.live
  metadata : s'.metadata = s.metadata
  cache : ∀ b i, (s'.buckets b).at i = (s.buckets b).at i
  memory : s'.memory = s.memory
  held : pc.held = (s.pcs a).held
  heldBucket : pc.heldBucket = (s.pcs a).heldBucket
  hand : pc.hand = (s.pcs a).hand
  handPage : pc.handPage = (s.pcs a).handPage
  linked : ∀ b x inuse next, pc = .linked b x inuse next → s.memory x = next

theorem pcs_same {β : Type} (hpcs : s'.pcs = Function.update s.pcs a pc) (f : Pc → β)
    (hf : f pc = f (s.pcs a)) (a' : Caller ε) : f (s'.pcs a') = f (s.pcs a') := by
  rw [hpcs, Function.update_apply]
  split
  · next ha => rw [hf, ha]
  · rfl

theorem Blocks.move {place : Nat → Option (Place ε)} (h : Blocks plat s place) (hm : Moves s s' a pc) :
    Blocks plat s' place := by
  refine h.frame hm.start hm.owner hm.live hm.metadata hm.cache
    ⟨pcs_same hm.pcs _ hm.held, pcs_same hm.pcs _ hm.heldBucket, pcs_same hm.pcs _ hm.hand,
      pcs_same hm.pcs _ hm.handPage⟩ (fun x P _ _ => by rw [hm.memory])
    fun a' b x inuse next hlinked => ?_
  rw [hm.memory]
  rw [hm.pcs, Function.update_apply] at hlinked
  split at hlinked
  · exact hm.linked b x inuse next hlinked
  · exact h.linked a' b x inuse next hlinked

/-- The lists of pages are the same, too. -/
structure KeepsLists (s s' : State ε) (a : Caller ε) (pc : Pc) : Prop where
  pcs : s'.pcs = Function.update s.pcs a pc
  owner : s'.owner = s.owner
  inuse : ∀ q, (s'.metadata q).inuseChunks = (s.metadata q).inuseChunks
  partials : ∀ b, (s'.buckets b).partials = (s.buckets b).partials
  free : ∀ b, (s'.buckets b).free = (s.buckets b).free
  freePages : s'.freePages = s.freePages
  popped : pc.poppedPage = (s.pcs a).poppedPage
  outside : pc.outside = (s.pcs a).outside

theorem Pages.keep (h : Pages s) (hk : KeepsLists s s' a pc) : Pages s' :=
  h.congr ⟨hk.owner, hk.inuse, hk.partials, hk.free, hk.freePages, pcs_same hk.pcs _ hk.popped,
    pcs_same hk.pcs _ hk.outside⟩

/-! ## Blocks that are passed on -/

/-- Caller `a` passes block `x` on from `P` to `Q`, and goes on to `pc`. -/
structure Passes (plat : Platform) (s s' : State ε) (a : Caller ε) (pc : Pc) (x : Nat) (P Q : Place ε) : Prop where
  pcs : s'.pcs = Function.update s.pcs a pc
  start : s'.pagesStart = s.pagesStart
  owner : s'.owner = s.owner
  memory : ∀ y, y ≠ x → s'.memory y = s.memory y
  heads : ∀ R, R ≠ P → R ≠ Q → s'.head R = s.head R
  fromList : P.IsList → s.head P = some x ∧ s'.head P = s.memory x
  toList : Q.IsList → s'.head Q = some x ∧ s'.memory x = s.head Q
  inuse : ∀ p, P ≠ .page p ∧ (Q ≠ .page p → (s'.metadata p).inuseChunks = (s.metadata p).inuseChunks)
    ∧ (Q = .page p → (s'.metadata p).inuseChunks + 1 = (s.metadata p).inuseChunks)
  slab : ∀ b i, ((s'.buckets b).at i).slab = ((s.buckets b).at i).slab
  live : ∀ y, y ≠ x → s'.live y = s.live y
  liveSelf : ∀ size, s'.live x = some size → Q = .live ∧ plat.Fits size ∧ 2 ≤ size ∧ size < 18446744073709551616
  handPage : pc.handPage = (s.pcs a).handPage
  before : ∀ y, (s.pcs a).held = some y → y = x
  after : ∀ y, pc.held = some y → y = x ∧ Q = .held a
  notLinked : ∀ b y inuse next, pc ≠ .linked b y inuse next
  own : ∀ a', a' ≠ a → P ≠ .held a'

theorem Blocks.pass {place : Nat → Option (Place ε)} {P Q : Place ε} (h : Blocks plat s place) (hx : place x = some P)
    (hne : P ≠ Q) (hp : Passes plat s s' a pc x P Q) (hfits : s'.Fits plat x Q) :
    Blocks plat s' (Function.update place x (some Q)) := by
  have hself : s'.pcs a = pc := by rw [hp.pcs, Function.update_self]
  have hother : ∀ a', a' ≠ a → s'.pcs a' = s.pcs a' := fun a' ha => by rw [hp.pcs, Function.update_of_ne ha]
  -- no other caller has the block
  have hnobody : ∀ a', a' ≠ a → (s.pcs a').held ≠ some x := fun a' ha hheld =>
    hp.own a' ha (Option.some.inj (hx.symm.trans (h.held a' x hheld)))
  refine h.relocate hx hne ⟨hp.start, hp.owner, hp.memory, hp.heads, hp.fromList, hp.toList, hp.inuse, hp.slab, hp.live,
    pcs_same hp.pcs _ hp.handPage, fun a' y hy => ?_, fun a' y hy hheld => ?_, hp.liveSelf, fun a' hheld => ?_,
    fun a' b y inuse next hlinked => ?_⟩ hfits
  · by_cases ha : a' = a
    · rw [ha, hself]
      exact iff_of_false (fun hin => hy (hp.after y hin).1) fun hin => hy (hp.before y hin)
    · rw [hother a' ha]
  · by_cases ha : a' = a
    · rw [ha] at hheld
      exact absurd (hp.before y hheld) hy
    · rw [hother a' ha]
  · by_cases ha : a' = a
    · rw [ha, hself] at hheld
      rw [ha]
      exact (hp.after x hheld).2
    · rw [hother a' ha] at hheld
      exact absurd hheld (hnobody a' ha)
  · by_cases ha : a' = a
    · rw [ha, hself] at hlinked
      exact absurd hlinked (hp.notLinked b y inuse next)
    · rw [hother a' ha] at hlinked
      have hy : y ≠ x := by
        rintro rfl
        exact hnobody a' ha (by rw [hlinked]; rfl)
      rw [hp.memory y hy]
      exact h.linked a' b y inuse next hlinked

/-! ## Buckets of callers -/

omit [DecidableEq ε] in
theorem cpubucket_eq (B : CacheBucket) (a : Caller ε) : B.cpubucket a = B.at a.index := by
  cases a <;> rfl

omit [DecidableEq ε] in
theorem at_setCpubucket (s : State ε) (a : Caller ε) (b c : Nat) (C : CpuBucket) (i : Option Nat) :
    ((s.setCpubucket a b C).buckets c).at i = if c = b ∧ i = a.index then C else (s.buckets c).at i := by
  unfold State.setCpubucket State.setBucket
  dsimp only
  rw [Function.update_apply]
  by_cases hc : c = b
  · subst hc
    rw [if_pos rfl]
    cases a with
    | cpu j =>
        cases i with
        | none => simp [CacheBucket.setCpubucket, CacheBucket.at, Caller.index]
        | some k =>
            by_cases hk : k = j
            · simp [CacheBucket.setCpubucket, CacheBucket.at, Caller.index, hk]
            · simp [CacheBucket.setCpubucket, CacheBucket.at, Caller.index, hk]
    | external e =>
        cases i with
        | none => simp [CacheBucket.setCpubucket, CacheBucket.at, Caller.index]
        | some k => simp [CacheBucket.setCpubucket, CacheBucket.at, Caller.index]
  · rw [if_neg hc, if_neg fun hand => hc hand.1]

omit [DecidableEq ε] in
/-- The rest of the bucket -/
theorem rest_setCpubucket (s : State ε) (a : Caller ε) (b c : Nat) (C : CpuBucket) :
    ((s.setCpubucket a b C).buckets c).partials = (s.buckets c).partials
      ∧ ((s.setCpubucket a b C).buckets c).free = (s.buckets c).free
      ∧ ((s.setCpubucket a b C).buckets c).slowBucketLock = (s.buckets c).slowBucketLock := by
  unfold State.setCpubucket State.setBucket
  dsimp only
  rw [Function.update_apply]
  split
  · next hc =>
      rw [hc]
      cases a <;> exact ⟨rfl, rfl, rfl⟩
  · exact ⟨rfl, rfl, rfl⟩

/-- The bucket of caller `a` for `b` becomes `C`, and the others stay. -/
structure Rebuckets (s s' : State ε) (a : Caller ε) (b : Nat) (C : CpuBucket) : Prop where
  cache : ∀ c i, (s'.buckets c).at i = if c = b ∧ i = a.index then C else (s.buckets c).at i
  partials : ∀ c, (s'.buckets c).partials = (s.buckets c).partials
  free : ∀ c, (s'.buckets c).free = (s.buckets c).free
  lock : ∀ c, (s'.buckets c).slowBucketLock = (s.buckets c).slowBucketLock

omit [DecidableEq ε] in
theorem rebuckets {C : CpuBucket} (hbuckets : s'.buckets = (s.setCpubucket a b C).buckets) : Rebuckets s s' a b C where
  cache c i := by rw [hbuckets]; exact at_setCpubucket s a b c C i
  partials c := by rw [hbuckets]; exact (rest_setCpubucket s a b c C).1
  free c := by rw [hbuckets]; exact (rest_setCpubucket s a b c C).2.1
  lock c := by rw [hbuckets]; exact (rest_setCpubucket s a b c C).2.2

theorem Callers.rebucket (h : Callers plat s) {C : CpuBucket} (hset : Rebuckets s s' a b C)
    (hpcs : s'.pcs = Function.update s.pcs a pc) (howns : (s.pcs a).inside = some b ∨ ∃ i, a = .cpu i)
    (hcall : ∀ c n, pc.call = some (c, n) → (s.pcs a).call = some (c, n))
    (hinside : ∀ c, pc.inside = some c → (s.pcs a).inside = some c) (hemptied : pc.emptied = none)
    (hhand : pc.handPage = none) (hready : ∀ c n, pc = .allocating c n true → c = b ∧ C.freelist ≠ none)
    (hdone : ∀ c n, pc ≠ .done c n none) : Callers plat s' :=
  h.proceed
    { pcs := hpcs
      cache := fun a' c ha hin => by
        rw [hset.cache, if_neg]
        rintro ⟨rfl, heq⟩
        exact h.apart ha hin howns heq
      lock := fun e c _ hin => by
        rw [hset.lock]
        exact h.lock e c hin
      call := fun c n hc => h.call a c n (hcall c n hc)
      inside := fun e c he hc => by
        rw [hset.lock]
        exact ⟨h.lock e c (he ▸ hinside c hc), Or.inl (hinside c hc)⟩
      emptied := fun c hc => absurd (hemptied.symm.trans hc).symm (Option.some_ne_none c)
      hand := fun hne => absurd hhand hne
      ready := fun c n heq => by
        obtain ⟨rfl, hne⟩ := hready c n heq
        rw [hset.cache, if_pos ⟨rfl, rfl⟩]
        exact hne
      done := hdone }

/-! ## The steps -/

/-- A step that changes no list and no bucket -/
theorem Inv.goto (h : Inv plat s) {f : State ε} (hf : f = s.goto a pc) (hheld : pc.held = (s.pcs a).held)
    (hheldBucket : pc.heldBucket = (s.pcs a).heldBucket) (hhand : pc.hand = (s.pcs a).hand)
    (hhandPage : pc.handPage = (s.pcs a).handPage) (hpopped : pc.poppedPage = (s.pcs a).poppedPage)
    (houtside : pc.outside = (s.pcs a).outside)
    (hlinked : ∀ b x inuse next, pc = .linked b x inuse next → s.memory x = next)
    (hproceeds : Proceeds plat s f a pc) : Inv plat f := by
  subst hf
  refine ⟨h.blocks.imp fun place hplace => hplace.move ⟨rfl, rfl, rfl, rfl, rfl, fun _ _ => rfl, rfl, hheld, hheldBucket,
    hhand, hhandPage, hlinked⟩, h.pages.keep ⟨rfl, rfl, fun _ => rfl, fun _ => rfl, fun _ => rfl, rfl, hpopped, houtside⟩,
    h.callers.proceed hproceeds⟩

/-- All `cpubuckets` and locks are the same. -/
structure SameBuckets (s s' : State ε) : Prop where
  cache : ∀ c i, (s'.buckets c).at i = (s.buckets c).at i
  lock : ∀ c, (s'.buckets c).slowBucketLock = (s.buckets c).slowBucketLock

omit [DecidableEq ε] in
theorem SameBuckets.refl (hbuckets : s'.buckets = s.buckets) : SameBuckets s s' :=
  ⟨fun _ _ => by rw [hbuckets], fun _ => by rw [hbuckets]⟩

omit [DecidableEq ε] in
/-- Only the lists of pages change. -/
theorem SameBuckets.lists {partials free : Clist} (hbuckets : ∀ c, s'.buckets c
    = if c = b then { s.buckets b with partials := partials, free := free } else s.buckets c) : SameBuckets s s' := by
  refine ⟨fun c i => ?_, fun c => ?_⟩
  · rw [hbuckets]
    split
    · next hc =>
        rw [hc]
        cases i <;> rfl
    · rfl
  · rw [hbuckets]
    split
    · next hc => rw [hc]
    · rfl

/-- What a caller outside a bucket goes on to -/
theorem Callers.leaves (h : Callers plat s) (hpcs : s'.pcs = Function.update s.pcs a pc) (hsame : SameBuckets s s')
    (hcall : pc.call = none) (hinside : pc.inside = none) (hhand : pc.handPage = none) : Proceeds plat s s' a pc where
  pcs := hpcs
  cache a' c _ _ := by rw [hsame.cache]
  lock e c _ hin := (hsame.lock c).trans (h.lock e c hin)
  call c size hc := absurd (hcall.symm.trans hc).symm (Option.some_ne_none _)
  inside e c _ hin := absurd (hinside.symm.trans hin).symm (Option.some_ne_none _)
  emptied c hin := absurd (hinside.symm.trans (Pc.inside_of_emptied hin)).symm (Option.some_ne_none _)
  hand hne := absurd hhand hne
  ready c size hpc := by rw [hpc] at hcall; cases hcall
  done c size hpc := by rw [hpc] at hcall; cases hcall

/-- What a caller in a bucket goes on to, in the same bucket -/
theorem Callers.stays (h : Callers plat s) (hpcs : s'.pcs = Function.update s.pcs a pc) (hsame : SameBuckets s s')
    (hcall : pc.call = (s.pcs a).call) (hinside : pc.inside = (s.pcs a).inside)
    (hemptied : ∀ c, pc.emptied = some c → ((s.buckets c).at a.index).freelist = none)
    (hhand : pc.handPage ≠ none → pc.hand ≠ none) (hready : ∀ b size, pc ≠ .allocating b size true)
    (hdone : ∀ b size, pc ≠ .done b size none) : Proceeds plat s s' a pc where
  pcs := hpcs
  cache a' c _ _ := by rw [hsame.cache]
  lock e c _ hin := (hsame.lock c).trans (h.lock e c hin)
  call c size hc := h.call a c size (hcall ▸ hc)
  inside e c he hin := by
    rw [hinside] at hin
    exact ⟨(hsame.lock c).trans (h.lock e c (he ▸ hin)), Or.inl hin⟩
  emptied c hc := by rw [hsame.cache]; exact hemptied c hc
  hand := hhand
  ready c size hpc := absurd hpc (hready c size)
  done := hdone

theorem Inv.salloc_cpu (h : Inv plat s) {i : Nat} (hpc : s.pcs (.cpu i) = .idle) (hfits : plat.Fits size) (hle : 2 ≤ size)
    (hlt : size < 18446744073709551616) :
    Inv plat (s.goto (.cpu i) (.allocating (bucketOf plat size) size false)) := by
  refine h.goto rfl (by rw [hpc]; rfl) (by rw [hpc]; rfl) (by rw [hpc]; rfl) (by rw [hpc]; rfl) (by rw [hpc]; rfl)
    (by rw [hpc]; rfl) (fun _ _ _ _ heq => by cases heq)
    { pcs := rfl
      cache := fun _ _ _ _ => rfl
      lock := fun e b _ hin => h.callers.lock e b hin
      call := fun b size' hc => ?_
      inside := fun e b he => by cases he
      emptied := fun b hc => by cases hc
      hand := fun hne => absurd rfl hne
      ready := fun b size' heq => absurd (Pc.allocating.inj heq).2.2 Bool.false_ne_true
      done := fun b size' heq => by cases heq }
  obtain ⟨rfl, rfl⟩ := Prod.mk.inj (Option.some.inj hc)
  exact ⟨rfl, hfits, hle, hlt⟩

theorem Inv.salloc_external (h : Inv plat s) {e : ε} (hpc : s.pcs (.external e) = .idle) (hfits : plat.Fits size)
    (hle : 2 ≤ size) (hlt : size < 18446744073709551616) :
    Inv plat (s.goto (.external e) (.locking (bucketOf plat size) size)) := by
  refine h.goto rfl (by rw [hpc]; rfl) (by rw [hpc]; rfl) (by rw [hpc]; rfl) (by rw [hpc]; rfl) (by rw [hpc]; rfl)
    (by rw [hpc]; rfl) (fun _ _ _ _ heq => by cases heq)
    { pcs := rfl
      cache := fun _ _ _ _ => rfl
      lock := fun e b _ hin => h.callers.lock e b hin
      call := fun b size' hc => ?_
      inside := fun e b _ hc => by cases hc
      emptied := fun b hc => by cases hc
      hand := fun hne => absurd rfl hne
      ready := fun b size' heq => by cases heq
      done := fun b size' heq => by cases heq }
  obtain ⟨rfl, rfl⟩ := Prod.mk.inj (Option.some.inj hc)
  exact ⟨rfl, hfits, hle, hlt⟩

omit [DecidableEq ε] in
theorem at_slowBucketLock (B : CacheBucket) (v : Bool) (i : Option Nat) :
    CacheBucket.at { B with slowBucketLock := v } i = B.at i := by
  cases i <;> rfl

/-- A step that writes the lock of the slow bucket -/
theorem Inv.setLock (h : Inv plat s) {v : Bool} (hheld : pc.held = (s.pcs a).held)
    (hheldBucket : pc.heldBucket = (s.pcs a).heldBucket) (hhand : pc.hand = (s.pcs a).hand)
    (hhandPage : pc.handPage = (s.pcs a).handPage) (hpopped : pc.poppedPage = (s.pcs a).poppedPage)
    (houtside : pc.outside = (s.pcs a).outside)
    (hlinked : ∀ b x inuse next, pc = .linked b x inuse next → s.memory x = next)
    (hproceeds : Proceeds plat s ((s.setBucket b { s.buckets b with slowBucketLock := v }).goto a pc) a pc) :
    Inv plat ((s.setBucket b { s.buckets b with slowBucketLock := v }).goto a pc) := by
  obtain ⟨s', hs'⟩ : ∃ s', s' = (s.setBucket b { s.buckets b with slowBucketLock := v }).goto a pc := ⟨_, rfl⟩
  have hbuckets : ∀ c, s'.buckets c = if c = b then { s.buckets b with slowBucketLock := v } else s.buckets c := by
    rw [hs']
    exact fun c => buckets_setBucket s b c _
  have hsame : ∀ c, (∀ i, (s'.buckets c).at i = (s.buckets c).at i) ∧ (s'.buckets c).partials = (s.buckets c).partials
      ∧ (s'.buckets c).free = (s.buckets c).free := by
    intro c
    rw [hbuckets]
    split
    · next hc =>
        rw [hc]
        exact ⟨at_slowBucketLock _ v, rfl, rfl⟩
    · exact ⟨fun _ => rfl, rfl, rfl⟩
  rw [← hs'] at hproceeds ⊢
  refine ⟨h.blocks.imp fun place hplace => hplace.move ⟨by rw [hs']; rfl, by rw [hs']; rfl, by rw [hs']; rfl,
      by rw [hs']; rfl, by rw [hs']; rfl, fun c => (hsame c).1, by rw [hs']; rfl, hheld, hheldBucket, hhand, hhandPage,
      hlinked⟩,
    h.pages.keep ⟨by rw [hs']; rfl, by rw [hs']; rfl, fun _ => by rw [hs']; rfl, fun c => (hsame c).2.1,
      fun c => (hsame c).2.2, by rw [hs']; rfl, hpopped, houtside⟩,
    h.callers.proceed hproceeds⟩

theorem Inv.lock (h : Inv plat s) (hpc : s.pcs a = .locking b size)
    (hfree : (s.buckets b).slowBucketLock ≠ true) :
    Inv plat ((s.setBucket b { s.buckets b with slowBucketLock := true }).goto a
      (.allocating b size false)) := by
  have hbuckets : ∀ c, ((s.setBucket b { s.buckets b with slowBucketLock := true }).goto a
      (.allocating b size false)).buckets c = if c = b then { s.buckets b with slowBucketLock := true } else s.buckets c :=
    fun c => buckets_setBucket s b c _
  refine h.setLock (by rw [hpc]; rfl) (by rw [hpc]; rfl) (by rw [hpc]; rfl) (by rw [hpc]; rfl) (by rw [hpc]; rfl)
    (by rw [hpc]; rfl) (fun _ _ _ _ heq => by cases heq)
    { pcs := rfl
      cache := fun a' c _ _ => ?_
      lock := fun e' c _ hin => ?_
      call := fun c size' hc => h.callers.call a c size' (by rw [hpc]; exact hc)
      inside := fun e' c _ hc => ?_
      emptied := fun c hc => by cases hc
      hand := fun hne => absurd rfl hne
      ready := fun c size' heq => by cases heq
      done := fun c size' heq => by cases heq }
  · rw [hbuckets]
    split
    · next hc => rw [hc, at_slowBucketLock]
    · rfl
  · rw [hbuckets]
    split
    · rfl
    · exact h.callers.lock e' c hin
  · obtain rfl := Option.some.inj hc
    rw [hbuckets, if_pos rfl]
    exact ⟨rfl, Or.inr (Bool.eq_false_of_not_eq_true hfree)⟩

/-! ## Allocation -/

/-- `cpubucket_alloc` that finds a block -/
theorem Inv.alloc (h : Inv plat s) {refilled : Bool} (hpc : s.pcs a = .allocating b size refilled)
    (hx : ((s.buckets b).at a.index).freelist = some x) :
    Inv plat ((s.setCpubucket a b { (s.buckets b).at a.index with freelist := s.memory x }).goto a
      (.done b size (some x))) := by
  obtain ⟨place, hplace⟩ := h.blocks
  obtain ⟨s', hs'⟩ : ∃ s', s' = (s.setCpubucket a b { (s.buckets b).at a.index with freelist := s.memory x }).goto a
      (.done b size (some x)) := ⟨_, rfl⟩
  have hset : Rebuckets s s' a b { (s.buckets b).at a.index with freelist := s.memory x } := rebuckets (by rw [hs']; rfl)
  have hat := hset.cache
  have hpcs : s'.pcs = Function.update s.pcs a (.done b size (some x)) := by rw [hs']; rfl
  -- the block is the first of the list
  obtain ⟨l, hl⟩ := hplace.chains (.cache b a.index) trivial
  have hhead : s.head (.cache b a.index) = some x := hx
  rw [hhead] at hl
  have hxplace := hl.place_head
  have hpass : Passes plat s s' a (.done b size (some x)) x (.cache b a.index) (.held a) :=
    { pcs := hpcs
      start := by rw [hs']; rfl
      owner := by rw [hs']; rfl
      memory := fun y _ => by rw [hs']; rfl
      heads := fun R hRP hRQ => by
        cases R with
        | page q => rw [hs']; rfl
        | cache c i =>
            refine congrArg CpuBucket.freelist ((hat c i).trans (if_neg fun heq => ?_))
            exact hRP (by rw [heq.1, heq.2])
        | hand a' => exact pcs_same hpcs Pc.hand (by rw [hpc]; rfl) a'
        | live | held a' => rfl
      fromList := fun _ => ⟨hx, congrArg CpuBucket.freelist ((hat b a.index).trans (if_pos ⟨rfl, rfl⟩))⟩
      toList := fun hlist => hlist.elim
      inuse := fun q => ⟨by simp, fun _ => by rw [hs']; rfl, fun heq => by cases heq⟩
      slab := fun c i => by
        rw [hat]
        split
        · next heq => rw [heq.1, heq.2]
        · rfl
      live := fun y _ => by rw [hs']; rfl
      liveSelf := fun size' hlive => by
        have hlive' : s.live x = some size' := by rw [hs'] at hlive; exact hlive
        have := Option.some.inj (hxplace.symm.trans (hplace.live x size' hlive').1)
        cases this
      handPage := by rw [hpc]; rfl
      before := fun y hy => by rw [hpc] at hy; cases hy
      after := fun y hy => ⟨(Option.some.inj hy).symm, rfl⟩
      notLinked := fun _ _ _ _ heq => by cases heq
      own := fun _ _ => by simp }
  have hkeep : KeepsLists s s' a (.done b size (some x)) :=
    ⟨hpcs, by rw [hs']; rfl, fun _ => by rw [hs']; rfl, hset.partials, hset.free, by rw [hs']; rfl,
      by rw [hpc]; rfl, by rw [hpc]; rfl⟩
  have hcallers : Callers plat s' :=
    h.callers.rebucket hset hpcs (Or.inl (by rw [hpc]; rfl)) (fun c n hc => by rw [hpc]; exact hc)
      (fun c hc => by rw [hpc]; exact hc) rfl rfl (fun c n heq => by cases heq) (fun c n heq => by cases heq)
  rw [← hs']
  refine ⟨⟨_, hplace.pass hxplace (by simp) hpass ?_⟩, h.pages.keep hkeep, hcallers⟩
  obtain ⟨q, -, hblock⟩ := hplace.fits x _ hxplace
  have hself : s'.pcs a = .done b size (some x) := by rw [hpcs, Function.update_self]
  exact ⟨b, q, by rw [hself]; rfl, by rw [hself]; rfl, hblock.congr (by rw [hs']; rfl) (by rw [hs']; rfl)⟩

/-- `cpubucket_alloc` that finds none, before the refill -/
theorem Inv.empty (h : Inv plat s) (hpc : s.pcs a = .allocating b size false)
    (hx : ((s.buckets b).at a.index).freelist = none) : Inv plat (s.goto a (.refilling b size)) := by
  refine h.goto rfl (by rw [hpc]; rfl) (by rw [hpc]; rfl) (by rw [hpc]; rfl) (by rw [hpc]; rfl) (by rw [hpc]; rfl)
    (by rw [hpc]; rfl) (fun _ _ _ _ heq => by cases heq)
    (h.callers.stays rfl (SameBuckets.refl rfl) (by rw [hpc]; rfl) (by rw [hpc]; rfl) (fun c hc => ?_)
      (fun hne => absurd rfl hne) (fun _ _ heq => by cases heq) fun _ _ heq => by cases heq)
  obtain rfl := Option.some.inj hc
  exact hx

/-- The blocks of page `p` are taken, in a state with the lists of `s'`. -/
theorem Blocks.takePage {place : Nat → Option (Place ε)} (h : Blocks plat s place) (hown : s.owner p = some b)
    (hhand : (s.pcs a).handPage = none) (hheld : (s.pcs a).held = none) (hheldBucket : (s.pcs a).heldBucket = none)
    (hstart : s'.pagesStart = s.pagesStart) (howner : s'.owner = s.owner) (hmemory : s'.memory = s.memory)
    (hlive : s'.live = s.live) (hmeta : s'.metadata = Function.update s.metadata p ⟨none, bucketObjinpage b⟩)
    (hcache : ∀ c i, (s'.buckets c).at i = (s.buckets c).at i)
    (hpcs : s'.pcs = Function.update s.pcs a (.taken b size p (s.metadata p).freelist)) :
    Blocks plat s' (moveAll place (.page p) (some (.hand a))) := by
  have hself : s'.pcs a = .taken b size p (s.metadata p).freelist := by rw [hpcs, Function.update_self]
  have hother : ∀ a', a' ≠ a → s'.pcs a' = s.pcs a' := fun a' ha => by rw [hpcs, Function.update_of_ne ha]
  refine h.empty
    { start := hstart
      owner := howner
      memory := hmemory
      live := hlive
      heads := fun R hRP hRQ => ?_
      fromHead := ?_
      toHead := ?_
      fromList := trivial
      toList := trivial
      nobody := fun x hx => ?_
      slab := fun c i _ => by rw [hcache]
      handPage := fun a' _ ha => by rw [hother a' fun heq => ha (by rw [heq])]
      held := pcs_same hpcs _ (by rw [hheld]; rfl)
      heldBucket := pcs_same hpcs _ (by rw [hheldBucket]; rfl)
      inuse := fun q hq => by rw [hmeta, Function.update_of_ne fun heq => hq (by rw [heq])]
      full := fun q c hq hc => ?_
      notPage := fun q => by simp
      fits := fun x hx => ?_
      linked := fun a' c x inuse next hlinked => ?_ } (by simp)
  · cases R with
    | page q =>
        rw [State.head_page, State.head_page, howner, hmeta, Function.update_of_ne fun heq => hRP (by rw [heq])]
    | cache c i => exact congrArg CpuBucket.freelist (hcache c i)
    | hand a' => exact congrArg Pc.hand (hother a' fun heq => hRQ (by rw [heq]))
    | live | held a' => rfl
  · rw [State.head_page, hmeta, Function.update_self, ite_self]
  · rw [State.head_page_owned hown]
    exact congrArg Pc.hand hself
  · obtain ⟨c, q, hc, -⟩ := h.fits x _ hx
    exact Option.some_ne_none _ (hc.symm.trans hhand)
  · obtain rfl := Place.page.inj hq
    rw [hmeta, Function.update_self, Option.some.inj (hown.symm.trans hc)]
  · obtain ⟨c, hblock⟩ := h.fits x _ hx
    obtain rfl := Option.some.inj (hown.symm.trans hblock.1)
    exact ⟨b, p, by rw [hself]; rfl, hblock.congr hstart (by rw [howner])⟩
  · by_cases ha : a' = a
    · rw [ha, hself] at hlinked
      cases hlinked
    · rw [hother a' ha] at hlinked
      rw [hmemory]
      exact h.linked a' c x inuse next hlinked

omit [DecidableEq ε] in
/-- The list of a page with free blocks is not empty. -/
theorem Blocks.freelist_ne {place : Nat → Option (Place ε)} (h : Blocks plat s place) (hown : s.owner p = some b)
    (hlt : (s.metadata p).inuseChunks < bucketObjinpage b) : (s.metadata p).freelist ≠ none := by
  intro hnone
  obtain ⟨l, hl⟩ := h.chains (.page p) trivial
  have hcount := h.count p b l hown hl
  rw [State.head_page_owned hown, hnone] at hl
  obtain rfl : l = [] := hl.list.unique rfl
  rw [List.length_nil] at hcount
  omega

/-- `bucket_refill_cpu_cache` that finds a page that is partly in use -/
theorem Inv.takePartial (h : Inv plat s) (hpc : s.pcs a = .refilling b size) {l' : Clist}
    (hpop : (s.buckets b).partials.popFront = (some p, l')) :
    Inv plat ((s.setBucket b { s.buckets b with partials := l' }).takePage a b size p) := by
  obtain ⟨place, hplace⟩ := h.blocks
  have hpops := (h.pages.partials b).pops hpop
  obtain ⟨hown, -, hlt⟩ := ((h.pages.page p).partials b).mp hpops.head
  have hsame : SameBuckets s ((s.setBucket b { s.buckets b with partials := l' }).takePage a b size p) :=
    SameBuckets.lists fun c => buckets_setBucket s b c _
  refine ⟨⟨_, hplace.takePage hown (by rw [hpc]; rfl) (by rw [hpc]; rfl) (by rw [hpc]; rfl) rfl rfl rfl rfl rfl hsame.cache rfl⟩,
    h.pages.takePartial hpops (by rw [hpc]; rfl) (by rw [hpc]; rfl), h.callers.proceed (h.callers.stays rfl hsame
      (by rw [hpc]; rfl) (by rw [hpc]; rfl) (fun c hc => ?_) (fun _ => hplace.freelist_ne hown hlt)
      (fun _ _ heq => by cases heq) fun _ _ heq => by cases heq)⟩
  exact h.callers.emptied a c (by rw [hpc]; exact hc)

/-- `bucket_refill_cpu_cache` that takes a page out of the list of free ones -/
theorem Inv.popFree (h : Inv plat s) (hpc : s.pcs a = .refilling b size) {l' : Clist}
    (hpop : (s.buckets b).free.popFront = (some p, l')) :
    Inv plat ((s.setBucket b { s.buckets b with free := l' }).goto a (.popped b size p)) := by
  have hpops := (h.pages.free b).pops hpop
  have hsame : SameBuckets s ((s.setBucket b { s.buckets b with free := l' }).goto a (.popped b size p)) :=
    SameBuckets.lists fun c => buckets_setBucket s b c _
  refine ⟨h.blocks.imp fun place hplace => hplace.move ⟨rfl, rfl, rfl, rfl, rfl, hsame.cache, rfl, by rw [hpc]; rfl,
      by rw [hpc]; rfl, by rw [hpc]; rfl, by rw [hpc]; rfl, fun _ _ _ _ heq => by cases heq⟩,
    h.pages.popFree hpops (by rw [hpc]; rfl) (by rw [hpc]; rfl), h.callers.proceed (h.callers.stays rfl hsame
      (by rw [hpc]; rfl) (by rw [hpc]; rfl) (fun c hc => ?_) (fun hne => absurd rfl hne)
      (fun _ _ heq => by cases heq) fun _ _ heq => by cases heq)⟩
  exact h.callers.emptied a c (by rw [hpc]; exact hc)

/-- `bucket_refill_cpu_cache` that finds no page -/
theorem Inv.missing (h : Inv plat s) (hpc : s.pcs a = .refilling b size) : Inv plat (s.goto a (.missing b size)) := by
  refine h.goto rfl (by rw [hpc]; rfl) (by rw [hpc]; rfl) (by rw [hpc]; rfl) (by rw [hpc]; rfl) (by rw [hpc]; rfl)
    (by rw [hpc]; rfl) (fun _ _ _ _ heq => by cases heq)
    (h.callers.stays rfl (SameBuckets.refl rfl) (by rw [hpc]; rfl) (by rw [hpc]; rfl) (fun c hc => ?_)
      (fun hne => absurd rfl hne) (fun _ _ heq => by cases heq) fun _ _ heq => by cases heq)
  exact h.callers.emptied a c (by rw [hpc]; exact hc)

/-- The lists have as many pages as they say, so that `nosv_abort` is for memory
that has run out. -/
theorem Inv.refill (h : Inv plat s) (hpc : s.pcs a = .refilling b size) : Inv plat (s.refill a b size) := by
  have hempty : ∀ {l : Clist}, l.Ok → l.empty = false → ∃ p l', l.popFront = (some p, l') := by
    intro l hl hne
    have hitems := hl.items_ne hne
    unfold Clist.popFront
    cases hcons : l.items with
    | nil => exact absurd hcons hitems
    | cons p items => exact ⟨p, _, rfl⟩
  unfold State.refill
  dsimp only
  split
  · next hne =>
      obtain ⟨p, l', hpop⟩ := hempty (h.pages.partials b) hne
      rw [hpop]
      exact h.takePartial hpc hpop
  · split
    · next hne =>
        obtain ⟨p, l', hpop⟩ := hempty (h.pages.free b) hne
        rw [hpop]
        exact h.popFree hpc hpop
    · exact h.missing hpc

theorem Inv.take (h : Inv plat s) (hpc : s.pcs a = .popped b size p) : Inv plat (s.takePage a b size p) := by
  obtain ⟨place, hplace⟩ := h.blocks
  obtain ⟨hown, hzero⟩ := (h.pages.page p).popped a b (by rw [hpc]; rfl)
  have hfour := four_le_bucketObjinpage ((h.pages.page p).bucket b hown)
  refine ⟨⟨_, hplace.takePage hown (by rw [hpc]; rfl) (by rw [hpc]; rfl) (by rw [hpc]; rfl) rfl rfl rfl rfl rfl
      (fun _ _ => rfl) rfl⟩,
    h.pages.take hpc, h.callers.proceed (h.callers.stays rfl (SameBuckets.refl rfl) (by rw [hpc]; rfl)
      (by rw [hpc]; rfl) (fun c hc => ?_) (fun _ => hplace.freelist_ne hown (by omega))
      (fun _ _ heq => by cases heq) fun _ _ heq => by cases heq)⟩
  exact h.callers.emptied a c (by rw [hpc]; exact hc)

theorem Inv.balloc (h : Inv plat s) (hpc : s.pcs a = .missing b size) {l' : Clist}
    (hpop : s.freePages.popFront = (some p, l')) :
    Inv plat ({ s with freePages := l' }.goto a (.fresh b size p)) := by
  refine ⟨h.blocks.imp fun place hplace => hplace.move ⟨rfl, rfl, rfl, rfl, rfl, fun _ _ => rfl, rfl, by rw [hpc]; rfl,
      by rw [hpc]; rfl, by rw [hpc]; rfl, by rw [hpc]; rfl, fun _ _ _ _ heq => by cases heq⟩,
    h.pages.balloc (h.pages.freePages.pops hpop) (by rw [hpc]; rfl) (by rw [hpc]; rfl),
    h.callers.proceed (h.callers.stays rfl (SameBuckets.refl rfl) (by rw [hpc]; rfl) (by rw [hpc]; rfl) (fun c hc => ?_)
      (fun hne => absurd rfl hne) (fun _ _ heq => by cases heq) fun _ _ heq => by cases heq)⟩
  exact h.callers.emptied a c (by rw [hpc]; exact hc)

theorem Inv.initializePage (h : Inv plat s) (hpc : s.pcs a = .fresh b size p) :
    Inv plat ({ s.setPage p ⟨some (s.addr p), 0⟩ with
      memory := bucketInitializePage s.memory b (s.addr p)
      owner := Function.update s.owner p (some b) }.goto a (.popped b size p)) := by
  obtain ⟨place, hplace⟩ := h.blocks
  obtain ⟨hbucket, hfits, -⟩ := h.callers.call a b size (by rw [hpc]; rfl)
  have hb : b < slabBuckets := hbucket ▸ bucketOf_lt hfits
  have hnone := ((h.pages.page p).outside a (by rw [hpc]; rfl)).1
  refine ⟨⟨_, hplace.addPage hnone hb ⟨rfl, rfl, rfl, rfl, rfl, fun _ _ => rfl, ⟨pcs_same rfl _ ?_, pcs_same rfl _ ?_,
      pcs_same rfl _ ?_, pcs_same rfl _ ?_⟩, fun a' c x inuse next hlinked => ?_⟩⟩,
    h.pages.initializePage hpc hb, h.callers.proceed (h.callers.stays rfl (SameBuckets.refl rfl) (by rw [hpc]; rfl)
      (by rw [hpc]; rfl) (fun c hc => ?_) (fun hne => absurd rfl hne) (fun _ _ heq => by cases heq)
      fun _ _ heq => by cases heq)⟩
  · rw [hpc]; rfl
  · rw [hpc]; rfl
  · rw [hpc]; rfl
  · rw [hpc]; rfl
  · unfold State.goto at hlinked
    dsimp only at hlinked
    rw [Function.update_apply] at hlinked
    split at hlinked
    · cases hlinked
    · exact hlinked
  · exact h.callers.emptied a c (by rw [hpc]; exact hc)

/-- `cpubucket_setpage` -/
theorem Inv.setpage (h : Inv plat s) {freelist : Option Nat} (hpc : s.pcs a = .taken b size p freelist) :
    Inv plat ((s.setCpubucket a b ⟨some p, freelist⟩).goto a (.allocating b size true)) := by
  obtain ⟨place, hplace⟩ := h.blocks
  obtain ⟨s', hs'⟩ : ∃ s', s' = (s.setCpubucket a b ⟨some p, freelist⟩).goto a (.allocating b size true) := ⟨_, rfl⟩
  have hset : Rebuckets s s' a b ⟨some p, freelist⟩ := rebuckets (by rw [hs']; rfl)
  have hat := hset.cache
  have hpcs : s'.pcs = Function.update s.pcs a (.allocating b size true) := by rw [hs']; rfl
  have hself : s'.pcs a = .allocating b size true := by rw [hpcs, Function.update_self]
  have hother : ∀ a', a' ≠ a → s'.pcs a' = s.pcs a' := fun a' ha => by rw [hpcs, Function.update_of_ne ha]
  have hempties : Empties plat s s' place (.hand a) (.cache b a.index) :=
    { start := by rw [hs']; rfl
      owner := by rw [hs']; rfl
      memory := by rw [hs']; rfl
      live := by rw [hs']; rfl
      heads := fun R hRP hRQ => by
        cases R with
        | page q => rw [hs']; rfl
        | cache c i =>
            refine congrArg CpuBucket.freelist ((hat c i).trans (if_neg fun heq => ?_))
            exact hRQ (by rw [heq.1, heq.2])
        | hand a' => exact congrArg Pc.hand (hother a' fun heq => hRP (by rw [heq]))
        | live | held a' => rfl
      fromHead := congrArg Pc.hand hself
      toHead := by
        show ((s'.buckets b).at a.index).freelist = (s.pcs a).hand
        rw [hat, if_pos ⟨rfl, rfl⟩, hpc]
        rfl
      fromList := trivial
      toList := trivial
      nobody := fun y hy => by
        obtain ⟨l, hl⟩ := hplace.chains (.cache b a.index) trivial
        rw [show s.head (.cache b a.index) = none from h.callers.emptied a b (by rw [hpc]; rfl)] at hl
        obtain rfl : l = [] := hl.list.unique rfl
        exact List.not_mem_nil ((hl.mem y).mpr hy)
      slab := fun c i hne => by
        rw [hat, if_neg]
        rintro ⟨rfl, rfl⟩
        exact hne rfl
      handPage := fun a' hne _ => by rw [hother a' fun heq => hne (by rw [heq])]
      held := pcs_same hpcs _ (by rw [hpc]; rfl)
      heldBucket := pcs_same hpcs _ (by rw [hpc]; rfl)
      inuse := fun q _ => by rw [hs']; rfl
      full := fun q c hq => by cases hq
      notPage := fun q => by simp
      fits := fun y hy => by
        obtain ⟨c, q, hhand, hblock⟩ := hplace.fits y _ hy
        rw [hpc] at hhand
        obtain ⟨rfl, rfl⟩ := Prod.mk.inj (Option.some.inj hhand)
        exact ⟨p, by rw [hat, if_pos ⟨rfl, rfl⟩], hblock.congr (by rw [hs']; rfl) (by rw [hs']; rfl)⟩
      linked := fun a' c y inuse next hlinked => by
        by_cases ha : a' = a
        · rw [ha, hself] at hlinked
          cases hlinked
        · rw [hother a' ha] at hlinked
          rw [hs']
          exact hplace.linked a' c y inuse next hlinked }
  have hkeep : KeepsLists s s' a (.allocating b size true) :=
    ⟨hpcs, by rw [hs']; rfl, fun _ => by rw [hs']; rfl, hset.partials, hset.free, by rw [hs']; rfl,
      by rw [hpc]; rfl, by rw [hpc]; rfl⟩
  have hhand := h.callers.hand a (by rw [hpc]; exact Option.some_ne_none _)
  rw [hpc] at hhand
  have hcallers : Callers plat s' :=
    h.callers.rebucket hset hpcs (Or.inl (by rw [hpc]; rfl)) (fun c n hc => by rw [hpc]; exact hc)
      (fun c hc => by rw [hpc]; exact hc) rfl rfl (fun c n heq => ⟨(Pc.allocating.inj heq).1.symm, hhand⟩)
      (fun c n heq => by cases heq)
  rw [← hs']
  exact ⟨⟨_, hplace.empty hempties (by simp)⟩, h.pages.keep hkeep, hcallers⟩

/-- The block is returned. -/
theorem Inv.ret (h : Inv plat s) (hpc : s.pcs a = .done b size (some x)) :
    Inv plat ({ s with live := Function.update s.live x (some size) }.goto a .idle) := by
  obtain ⟨place, hplace⟩ := h.blocks
  have hxplace := hplace.held a x (by rw [hpc]; rfl)
  obtain ⟨hb, hfits, hle, hlt⟩ := h.callers.call a b size (by rw [hpc]; rfl)
  have hpass : Passes plat s ({ s with live := Function.update s.live x (some size) }.goto a .idle) a .idle x
      (.held a) .live :=
    { pcs := rfl
      start := rfl
      owner := rfl
      memory := fun _ _ => rfl
      heads := fun R hRP _ => by
        cases R with
        | page q | cache c i => rfl
        | hand a' => exact pcs_same rfl Pc.hand (by rw [hpc]; rfl) a'
        | live | held a' => rfl
      fromList := fun hlist => hlist.elim
      toList := fun hlist => hlist.elim
      inuse := fun q => ⟨by simp, fun _ => rfl, fun heq => by cases heq⟩
      slab := fun _ _ => rfl
      live := fun y hy => Function.update_of_ne hy ..
      liveSelf := fun size' hlive => by
        have hlive' : Function.update s.live x (some size) x = some size' := hlive
        rw [Function.update_self] at hlive'
        obtain rfl := Option.some.inj hlive'
        exact ⟨rfl, hfits, hle, hlt⟩
      handPage := by rw [hpc]; rfl
      before := fun y hy => by rw [hpc] at hy; exact (Option.some.inj hy).symm
      after := fun y hy => by cases hy
      notLinked := fun _ _ _ _ heq => by cases heq
      own := fun a' ha heq => ha (Place.held.inj heq).symm }
  refine ⟨⟨_, hplace.pass hxplace (by simp) hpass ?_⟩,
    h.pages.keep ⟨rfl, rfl, fun _ => rfl, fun _ => rfl, fun _ => rfl, rfl, by rw [hpc]; rfl, by rw [hpc]; rfl⟩,
    h.callers.proceed (h.callers.leaves rfl (SameBuckets.refl rfl) rfl rfl rfl)⟩
  obtain ⟨c, q, -, hc, hblock⟩ := hplace.fits x _ hxplace
  rw [hpc] at hc
  obtain rfl := Option.some.inj hc
  exact ⟨size, q, Function.update_self .., hb ▸ hblock⟩

theorem Inv.ret_external (h : Inv plat s) {e : ε} (hpc : s.pcs (.external e) = .done b size (some x)) :
    Inv plat (({ s with live := Function.update s.live x (some size) }.setBucket b
      { s.buckets b with slowBucketLock := false }).goto (.external e) .idle) := by
  have h' := h.ret hpc
  obtain ⟨s₁, hs₁⟩ : ∃ s₁, s₁ = { s with live := Function.update s.live x (some size) }.goto (.external e) .idle := ⟨_, rfl⟩
  rw [← hs₁] at h'
  have hidle : s₁.pcs (.external e) = .idle := by rw [hs₁]; exact Function.update_self ..
  have heq : ({ s with live := Function.update s.live x (some size) }.setBucket b
      { s.buckets b with slowBucketLock := false }).goto (.external e) .idle
      = (s₁.setBucket b { s₁.buckets b with slowBucketLock := false }).goto (.external e) .idle := by
    rw [hs₁]
    unfold State.goto State.setBucket
    dsimp only
    rw [Function.update_idem]
  rw [heq]
  refine h'.setLock (by rw [hidle]) (by rw [hidle]) (by rw [hidle]) (by rw [hidle]) (by rw [hidle]) (by rw [hidle])
    (fun _ _ _ _ hl => by cases hl)
    { pcs := rfl
      cache := fun a' c _ _ => ?_
      lock := fun e' c he hin => ?_
      call := fun c size' hc => by cases hc
      inside := fun e' c _ hc => by cases hc
      emptied := fun c hc => by cases hc
      hand := fun hne => absurd rfl hne
      ready := fun c size' hc => by cases hc
      done := fun c size' hc => by cases hc }
  · show (((s₁.setBucket b { s₁.buckets b with slowBucketLock := false }).buckets c).at a'.index).freelist = _
    rw [buckets_setBucket]
    split
    · next hc => rw [hc, at_slowBucketLock]
    · rfl
  · show ((s₁.setBucket b { s₁.buckets b with slowBucketLock := false }).buckets c).slowBucketLock = true
    have hin' : (s.pcs (.external e')).inside = some c := by
      rw [hs₁] at hin
      unfold State.goto at hin
      dsimp only at hin
      rwa [Function.update_of_ne he] at hin
    rw [buckets_setBucket]
    split
    · next hc =>
        -- nobody else is in this bucket
        rw [hc] at hin'
        exact absurd (congrArg Caller.external (h.callers.lock_unique e' e b hin' (by rw [hpc]; rfl))) he
    · rw [hs₁]
      exact h.callers.lock e' c hin'

/-! ## Frees -/

omit [DecidableEq ε] in
/-- Words of a live block are not those of blocks in other places. -/
theorem Blocks.apart {place : Nat → Option (Place ε)} (h : Blocks plat s place) {y offset : Nat} {P : Place ε}
    (hlive : s.live x = some size) (hoffset : offset < objSize (bucketOf plat size)) (hy : place y = some P)
    (hne : P ≠ .live) : y ≠ x + offset := by
  have hxplace := (h.live x size hlive).1
  obtain ⟨size', q, hlive', hblock⟩ := h.fits x _ hxplace
  obtain rfl := Option.some.inj (hlive.symm.trans hlive')
  obtain ⟨r, c, hblock'⟩ := (h.fits y P hy).isBlock
  have hxy : x ≠ y := by
    rintro rfl
    exact hne (Option.some.inj (hy.symm.trans hxplace))
  have hpos := objSize_pos c
  rcases hblock.disjoint hblock' hxy with hle | hle <;> omega

/-- `cpubucket_localfree` -/
theorem Inv.localfree (h : Inv plat s) {i : Nat} (hpc : s.pcs (.cpu i) = .idle) (hlive : s.live x = some size)
    (hpage : s.isinpage ((s.buckets (bucketOf plat size)).at (some i)) x = true) :
    Inv plat (({ s with live := Function.update s.live x none }.write x
        ((s.buckets (bucketOf plat size)).at (some i)).freelist).setCpubucket (.cpu i) (bucketOf plat size)
      { (s.buckets (bucketOf plat size)).at (some i) with freelist := some x }) := by
  obtain ⟨place, hplace⟩ := h.blocks
  obtain ⟨b, hb⟩ : ∃ b, b = bucketOf plat size := ⟨_, rfl⟩
  rw [← hb] at hpage ⊢
  obtain ⟨C, hC⟩ : ∃ C, C = (s.buckets b).at (some i) := ⟨_, rfl⟩
  rw [← hC] at hpage ⊢
  obtain ⟨s', hs'⟩ : ∃ s', s' = ({ s with live := Function.update s.live x none }.write x C.freelist).setCpubucket
      (.cpu i) b { C with freelist := some x } := ⟨_, rfl⟩
  have hset : Rebuckets s s' (.cpu i) b { C with freelist := some x } := by
    have hrest := rebuckets (s := { s with live := Function.update s.live x none }.write x C.freelist) (a := .cpu i)
      (b := b) (C := { C with freelist := some x }) (congrArg State.buckets hs')
    exact ⟨hrest.cache, hrest.partials, hrest.free, hrest.lock⟩
  have hat : ∀ c j, (s'.buckets c).at j
      = if c = b ∧ j = some i then { C with freelist := some x } else (s.buckets c).at j := hset.cache
  have hpcs : s'.pcs = Function.update s.pcs (.cpu i) .idle := by
    rw [hs', ← hpc, Function.update_eq_self]
    rfl
  have hmemory : s'.memory = Function.update s.memory x C.freelist := by rw [hs']; rfl
  have hlive' : s'.live = Function.update s.live x none := by rw [hs']; rfl
  have hxplace := (hplace.live x size hlive).1
  have hpass : Passes plat s s' (.cpu i) .idle x .live (.cache b (some i)) :=
    { pcs := hpcs
      start := by rw [hs']; rfl
      owner := by rw [hs']; rfl
      memory := fun y hy => by rw [hmemory, Function.update_of_ne hy]
      heads := fun R _ hRQ => by
        cases R with
        | page q => rw [hs']; rfl
        | cache c j =>
            refine congrArg CpuBucket.freelist ((hat c j).trans (if_neg fun heq => ?_))
            exact hRQ (by rw [heq.1, heq.2])
        | hand a' => exact pcs_same hpcs Pc.hand (by rw [hpc]) a'
        | live | held a' => rfl
      fromList := fun hlist => hlist.elim
      toList := fun _ => by
        refine ⟨congrArg CpuBucket.freelist ((hat b (some i)).trans (if_pos ⟨rfl, rfl⟩)), ?_⟩
        rw [hmemory, Function.update_self, hC]
        rfl
      inuse := fun q => ⟨by simp, fun _ => by rw [hs']; rfl, fun heq => by cases heq⟩
      slab := fun c j => by
        rw [hat]
        split
        · next heq => rw [heq.1, heq.2, hC]
        · rfl
      live := fun y hy => by rw [hlive', Function.update_of_ne hy]
      liveSelf := fun size' hl => by
        rw [hlive', Function.update_self] at hl
        cases hl
      handPage := by rw [hpc]
      before := fun y hy => by rw [hpc] at hy; cases hy
      after := fun y hy => by cases hy
      notLinked := fun _ _ _ _ heq => by cases heq
      own := fun _ _ => by simp }
  have hkeep : KeepsLists s s' (.cpu i) .idle :=
    ⟨hpcs, by rw [hs']; rfl, fun _ => by rw [hs']; rfl, hset.partials, hset.free, by rw [hs']; rfl,
      by rw [hpc], by rw [hpc]⟩
  have hcallers : Callers plat s' :=
    h.callers.rebucket hset hpcs (Or.inr ⟨i, rfl⟩) (fun c n hc => by cases hc) (fun c hc => by cases hc) rfl rfl
      (fun c n heq => by cases heq) (fun c n heq => by cases heq)
  rw [← hs']
  refine ⟨⟨_, hplace.pass hxplace (by simp) hpass ?_⟩, h.pages.keep hkeep, hcallers⟩
  obtain ⟨size', q, hsize', hblock⟩ := hplace.fits x _ hxplace
  obtain rfl := Option.some.inj (hlive.symm.trans hsize')
  rw [← hb] at hblock
  refine ⟨q, ?_, hblock.congr (by rw [hs']; rfl) (by rw [hs']; rfl)⟩
  rw [hat, if_pos ⟨rfl, rfl⟩]
  -- the page of the bucket is the one that the block is in
  unfold State.isinpage at hpage
  split at hpage
  · next r hslab =>
      obtain rfl := addr_unique hblock.in_page (of_decide_eq_true hpage)
      exact hslab
  · cases hpage

/-- A free that has to go to the page -/
theorem Inv.remotefree (h : Inv plat s) (hpc : s.pcs a = .idle) (hlive : s.live x = some size) :
    Inv plat ({ s with live := Function.update s.live x none }.goto a (.freeing (bucketOf plat size) x)) := by
  obtain ⟨place, hplace⟩ := h.blocks
  obtain ⟨b, hb⟩ : ∃ b, b = bucketOf plat size := ⟨_, rfl⟩
  rw [← hb]
  have hxplace := (hplace.live x size hlive).1
  have hpass : Passes plat s ({ s with live := Function.update s.live x none }.goto a (.freeing b x)) a (.freeing b x) x
      .live (.held a) :=
    { pcs := rfl
      start := rfl
      owner := rfl
      memory := fun _ _ => rfl
      heads := fun R _ _ => by
        cases R with
        | page q | cache c i => rfl
        | hand a' => exact pcs_same rfl Pc.hand (by rw [hpc]; rfl) a'
        | live | held a' => rfl
      fromList := fun hlist => hlist.elim
      toList := fun hlist => hlist.elim
      inuse := fun q => ⟨by simp, fun _ => rfl, fun heq => by cases heq⟩
      slab := fun _ _ => rfl
      live := fun y hy => Function.update_of_ne hy ..
      liveSelf := fun size' hl => by
        have hl' : Function.update s.live x none x = some size' := hl
        rw [Function.update_self] at hl'
        cases hl'
      handPage := by rw [hpc]; rfl
      before := fun y hy => by rw [hpc] at hy; cases hy
      after := fun y hy => ⟨(Option.some.inj hy).symm, rfl⟩
      notLinked := fun _ _ _ _ heq => by cases heq
      own := fun _ _ => by simp }
  refine ⟨⟨_, hplace.pass hxplace (by simp) hpass ?_⟩,
    h.pages.keep ⟨rfl, rfl, fun _ => rfl, fun _ => rfl, fun _ => rfl, rfl, by rw [hpc]; rfl, by rw [hpc]; rfl⟩,
    h.callers.proceed (h.callers.leaves rfl (SameBuckets.refl rfl) rfl rfl rfl)⟩
  obtain ⟨size', q, hsize', hblock⟩ := hplace.fits x _ hxplace
  obtain rfl := Option.some.inj (hlive.symm.trans hsize')
  have hself : ({ s with live := Function.update s.live x none }.goto a (.freeing b x)).pcs a = .freeing b x :=
    Function.update_self ..
  exact ⟨b, q, by rw [hself]; rfl, by rw [hself]; rfl, hb ▸ hblock⟩

/-- A step that changes nothing but where the caller is, outside all buckets -/
theorem Inv.outsideStep (h : Inv plat s) (hheld : pc.held = (s.pcs a).held)
    (hheldBucket : pc.heldBucket = (s.pcs a).heldBucket) (hhand : pc.hand = (s.pcs a).hand)
    (hhandPage : (s.pcs a).handPage = none ∧ pc.handPage = none) (hpopped : pc.poppedPage = (s.pcs a).poppedPage)
    (houtside : pc.outside = (s.pcs a).outside)
    (hlinked : ∀ b x inuse next, pc = .linked b x inuse next → s.memory x = next) (hcall : pc.call = none)
    (hinside : pc.inside = none) : Inv plat (s.goto a pc) :=
  h.goto rfl hheld hheldBucket hhand (hhandPage.2.trans hhandPage.1.symm) hpopped houtside hlinked
    (h.callers.leaves rfl (SameBuckets.refl rfl) hcall hinside hhandPage.2)

/-- The link is written to the block, which nobody else has. -/
theorem Inv.link (h : Inv plat s) {inuse : Nat} {next : Option Nat} (hpc : s.pcs a = .looked b x inuse) :
    Inv plat ((s.write x next).goto a (.linked b x inuse next)) := by
  obtain ⟨place, hplace⟩ := h.blocks
  have hxplace := hplace.held a x (by rw [hpc]; rfl)
  have hpcs : ((s.write x next).goto a (.linked b x inuse next)).pcs
      = Function.update s.pcs a (.linked b x inuse next) := rfl
  have hmemory : ((s.write x next).goto a (.linked b x inuse next)).memory = Function.update s.memory x next := rfl
  refine ⟨⟨place, hplace.frame rfl rfl rfl rfl (fun _ _ => rfl)
      ⟨pcs_same hpcs _ (by rw [hpc]; rfl), pcs_same hpcs _ (by rw [hpc]; rfl), pcs_same hpcs _ (by rw [hpc]; rfl),
        pcs_same hpcs _ (by rw [hpc]; rfl)⟩ (fun y P hP hy => ?_) fun a' c y inuse' next' hlinked => ?_⟩,
    h.pages.keep ⟨hpcs, rfl, fun _ => rfl, fun _ => rfl, fun _ => rfl, rfl, by rw [hpc]; rfl, by rw [hpc]; rfl⟩,
    h.callers.proceed (h.callers.leaves hpcs (SameBuckets.refl rfl) rfl rfl rfl)⟩
  · rw [hmemory, Function.update_of_ne]
    rintro rfl
    obtain rfl := Option.some.inj (hxplace.symm.trans hy)
    exact hP
  · rw [hpcs, Function.update_apply] at hlinked
    split at hlinked
    · obtain ⟨-, rfl, -, rfl⟩ := Pc.linked.inj hlinked
      rw [hmemory, Function.update_self]
    · next ha =>
        rw [hmemory, Function.update_of_ne]
        · exact hplace.linked a' c y inuse' next' hlinked
        · rintro rfl
          have hheld := hplace.held a' y (by rw [hlinked]; rfl)
          exact ha (Place.held.inj (Option.some.inj (hheld.symm.trans hxplace)))

omit [DecidableEq ε] in
/-- The owner of a live block writes to it. -/
theorem Inv.store (h : Inv plat s) {offset : Nat} {word : Option Nat} (hlive : s.live x = some size)
    (hoffset : offset < objSize (bucketOf plat size)) : Inv plat (s.write (x + offset) word) := by
  obtain ⟨place, hplace⟩ := h.blocks
  have hmemory : (s.write (x + offset) word).memory = Function.update s.memory (x + offset) word := rfl
  refine ⟨⟨place, hplace.frame rfl rfl rfl rfl (fun _ _ => rfl) ⟨fun _ => rfl, fun _ => rfl, fun _ => rfl, fun _ => rfl⟩
      (fun y P hP hy => ?_) fun a' c y inuse next hlinked => ?_⟩,
    h.pages.congr ⟨rfl, fun _ => rfl, fun _ => rfl, fun _ => rfl, rfl, fun _ => rfl, fun _ => rfl⟩,
    ⟨h.callers.call, h.callers.lock, h.callers.lock_unique, h.callers.emptied, h.callers.hand, h.callers.ready,
      h.callers.done⟩⟩
  · rw [hmemory, Function.update_of_ne (hplace.apart hlive hoffset hy ?_)]
    rintro rfl
    exact hP
  · have hheld := hplace.held a' y (by rw [show s.pcs a' = _ from hlinked]; rfl)
    rw [hmemory, Function.update_of_ne (hplace.apart hlive hoffset hheld (by simp))]
    exact hplace.linked a' c y inuse next hlinked

/-! ## The exchange -/

/-- What happens after the exchange, apart from the lists of the bucket: the page
may leave it. -/
structure Freed (s s' : State ε) (a : Caller ε) (inuse p : Nat) : Prop where
  start : s'.pagesStart = s.pagesStart
  memory : s'.memory = s.memory
  live : s'.live = s.live
  metadata : s'.metadata = s.metadata
  buckets : SameBuckets s s'
  next : (s'.owner = s.owner ∧ s'.pcs = Function.update s.pcs a .idle)
    ∨ inuse = 1 ∧ s'.owner = Function.update s.owner p none ∧ s'.pcs = Function.update s.pcs a (.returning p)

theorem freed_cases (s : State ε) (a : Caller ε) (b inuse p : Nat) : Freed s (s.freed a b inuse p) a inuse p := by
  unfold State.freed
  dsimp only
  split
  · next hone =>
      split
      · exact ⟨rfl, rfl, rfl, rfl, SameBuckets.lists fun c => buckets_setBucket s b c _, Or.inr ⟨hone, rfl, rfl⟩⟩
      · exact ⟨rfl, rfl, rfl, rfl, SameBuckets.lists fun c => buckets_setBucket s b c _, Or.inl ⟨rfl, rfl⟩⟩
  · split
    · exact ⟨rfl, rfl, rfl, rfl, SameBuckets.lists fun c => buckets_setBucket s b c _, Or.inl ⟨rfl, rfl⟩⟩
    · exact ⟨rfl, rfl, rfl, rfl, SameBuckets.refl rfl, Or.inl ⟨rfl, rfl⟩⟩

omit [DecidableEq ε] in
/-- A page with a block that is not in its list has that block in use. -/
theorem Blocks.inuse_pos {place : Nat → Option (Place ε)} (h : Blocks plat s place) (hblock : s.IsBlock x p b)
    (hplace : place x ≠ some (.page p)) :
    1 ≤ (s.metadata p).inuseChunks ∧ (s.metadata p).inuseChunks ≤ bucketObjinpage b := by
  obtain ⟨l, hl⟩ := h.chains (.page p) trivial
  have hcount := h.count p b l hblock.1 hl
  have hnotin : x ∉ l := fun hin => hplace ((hl.mem x).mp hin)
  have hlength := (length_le_of_blocks (s := s) (p := p) (b := b) (List.nodup_cons.mpr ⟨hnotin, hl.nodup⟩)
    fun y hy => ?_).1
  · rw [List.length_cons] at hlength
    omega
  · rcases List.mem_cons.mp hy with rfl | hin
    · exact hblock
    · obtain ⟨c, hblock'⟩ := h.fits y _ ((hl.mem y).mp hin)
      obtain rfl := Option.some.inj (hblock.1.symm.trans hblock'.1)
      exact hblock'

theorem Inv.exchange (h : Inv plat s) {inuse : Nat} {next : Option Nat} (hpc : s.pcs a = .linked b x inuse next)
    (hfreelist : (s.metadata (s.pageOf x)).freelist = next) (hinuse : (s.metadata (s.pageOf x)).inuseChunks = inuse) :
    Inv plat ((s.setPage (s.pageOf x) ⟨some x, inuse - 1⟩).freed a b inuse (s.pageOf x)) := by
  obtain ⟨place, hplace⟩ := h.blocks
  have hxplace := hplace.held a x (by rw [hpc]; rfl)
  obtain ⟨c, p, -, hc, hblock⟩ := hplace.fits x _ hxplace
  rw [hpc] at hc
  obtain rfl := Option.some.inj hc
  rw [hblock.pageOf] at hfreelist hinuse ⊢
  have hown := hblock.1
  obtain ⟨hpos, hle⟩ := hplace.inuse_pos hblock (by rw [hxplace]; simp)
  rw [hinuse] at hpos hle
  have hfreed := freed_cases (s.setPage p ⟨some x, inuse - 1⟩) a b inuse p
  obtain ⟨s', hs'⟩ : ∃ s', s' = (s.setPage p ⟨some x, inuse - 1⟩).freed a b inuse p := ⟨_, rfl⟩
  have hpages : Pages s' := hs' ▸ h.pages.freed hown hinuse hpos hle (by rw [hpc]; rfl) (by rw [hpc]; rfl)
  rw [← hs'] at hfreed ⊢
  -- the block is in the list of its page; then the page may go
  obtain ⟨s₀, hs₀⟩ : ∃ s₀, s₀ = (s.setPage p ⟨some x, inuse - 1⟩).goto a .idle := ⟨_, rfl⟩
  have hmeta : s₀.metadata = Function.update s.metadata p ⟨some x, inuse - 1⟩ := by rw [hs₀]; rfl
  have hpcs₀ : s₀.pcs = Function.update s.pcs a .idle := by rw [hs₀]; rfl
  have hown₀ : s₀.owner p = some b := by rw [hs₀]; exact hown
  have hlink : s.memory x = next := hplace.linked a b x inuse next hpc
  have hpass : Passes plat s s₀ a .idle x (.held a) (.page p) :=
    { pcs := hpcs₀
      start := by rw [hs₀]; rfl
      owner := by rw [hs₀]; rfl
      memory := fun _ _ => by rw [hs₀]; rfl
      heads := fun R _ hRQ => by
        cases R with
        | page q =>
            rw [State.head_page, State.head_page, hmeta, Function.update_of_ne fun heq => hRQ (by rw [heq]), hs₀]
            rfl
        | cache c i => rw [hs₀]; rfl
        | hand a' => exact pcs_same hpcs₀ Pc.hand (by rw [hpc]; rfl) a'
        | live | held a' => rfl
      fromList := fun hlist => hlist.elim
      toList := fun _ => by
        rw [State.head_page_owned hown₀, State.head_page_owned hown, hmeta, Function.update_self, hfreelist, ← hlink, hs₀]
        exact ⟨rfl, rfl⟩
      inuse := fun q => by
        refine ⟨by simp, fun hq => ?_, fun hq => ?_⟩
        · rw [hmeta, Function.update_of_ne fun heq => hq (by rw [heq])]
        · obtain rfl := Place.page.inj hq
          rw [hmeta, Function.update_self, hinuse]
          exact Nat.sub_add_cancel hpos
      slab := fun _ _ => by rw [hs₀]; rfl
      live := fun _ _ => by rw [hs₀]; rfl
      liveSelf := fun size' hlive => by
        have hlive' : s.live x = some size' := by rw [hs₀] at hlive; exact hlive
        have := Option.some.inj (hxplace.symm.trans (hplace.live x size' hlive').1)
        cases this
      handPage := by rw [hpc]; rfl
      before := fun y hy => by rw [hpc] at hy; exact (Option.some.inj hy).symm
      after := fun y hy => by cases hy
      notLinked := fun _ _ _ _ heq => by cases heq
      own := fun a' ha heq => ha (Place.held.inj heq).symm }
  have hblocks₀ := hplace.pass hxplace (by simp) hpass ⟨b, hblock.congr (by rw [hs₀]; rfl) (by rw [hs₀]; rfl)⟩
  have hcache : ∀ c i, (s'.buckets c).at i = (s₀.buckets c).at i := fun c i => by
    rw [hfreed.buckets.cache, hs₀]
    rfl
  have hsame : SameBuckets s s' := ⟨fun c i => (hfreed.buckets.cache c i).trans rfl, fun c => hfreed.buckets.lock c⟩
  have hidle : s₀.pcs a = .idle := by rw [hpcs₀, Function.update_self]
  rcases hfreed.next with ⟨howner, hpcs⟩ | ⟨hone, howner, hpcs⟩
  · have hpcs' : s'.pcs = Function.update s₀.pcs a .idle := by
      rw [hpcs₀, Function.update_idem]
      exact hpcs
    exact ⟨⟨_, hblocks₀.move ⟨hpcs', hfreed.start.trans (by rw [hs₀]; rfl), howner.trans (by rw [hs₀]; rfl),
      hfreed.live.trans (by rw [hs₀]; rfl), hfreed.metadata.trans (by rw [hs₀]; rfl), hcache,
      hfreed.memory.trans (by rw [hs₀]; rfl), by rw [hidle], by rw [hidle], by rw [hidle], by rw [hidle],
      fun _ _ _ _ heq => by cases heq⟩⟩, hpages, h.callers.proceed (h.callers.leaves hpcs hsame rfl rfl rfl)⟩
  · have hpcs' : s'.pcs = Function.update s₀.pcs a (.returning p) := by
      rw [hpcs₀, Function.update_idem]
      exact hpcs
    refine ⟨⟨_, hblocks₀.dropPage hown₀ (by rw [hmeta, Function.update_self, hone]) ⟨hfreed.start.trans (by rw [hs₀]; rfl),
      howner.trans (by rw [hs₀]; rfl), hfreed.memory.trans (by rw [hs₀]; rfl), hfreed.live.trans (by rw [hs₀]; rfl),
      hfreed.metadata.trans (by rw [hs₀]; rfl), hcache, ⟨pcs_same hpcs' _ (by rw [hidle]; rfl),
        pcs_same hpcs' _ (by rw [hidle]; rfl), pcs_same hpcs' _ (by rw [hidle]; rfl),
        pcs_same hpcs' _ (by rw [hidle]; rfl)⟩, fun a' c y inuse' next' hlinked => ?_⟩⟩, hpages,
      h.callers.proceed (h.callers.leaves hpcs hsame rfl rfl rfl)⟩
    rw [hpcs', Function.update_apply] at hlinked
    split at hlinked
    · cases hlinked
    · exact hlinked

theorem Inv.bfree (h : Inv plat s) (hpc : s.pcs a = .returning p) :
    Inv plat ({ s with freePages := s.freePages.add p }.goto a .idle) :=
  ⟨h.blocks.imp fun place hplace => hplace.move ⟨rfl, rfl, rfl, rfl, rfl, fun _ _ => rfl, rfl, by rw [hpc]; rfl,
      by rw [hpc]; rfl, by rw [hpc]; rfl, by rw [hpc]; rfl, fun _ _ _ _ heq => by cases heq⟩,
    h.pages.bfree hpc, h.callers.proceed (h.callers.leaves rfl (SameBuckets.refl rfl) rfl rfl rfl)⟩

/-! ## Runs -/

omit [DecidableEq ε] in
theorem inv_init {pages : List Nat} (hnodup : pages.Nodup) (pagesStart : Nat) (metadata : Nat → PageMetadata)
    (memory : Nat → Option Nat) : Inv plat (init pagesStart pages metadata memory : State ε) := by
  have hblock : ∀ x p b, ¬(init pagesStart pages metadata memory : State ε).IsBlock x p b := fun x p b hx => by
    cases hx.1
  refine ⟨⟨fun _ => none,
    { chains := fun P hP => ⟨[], ?_, List.nodup_nil, fun x => iff_of_false List.not_mem_nil (by simp)⟩
      fits := fun x P hx => by cases hx
      live := fun x size hx => by cases hx
      held := fun a x hx => by cases hx
      linked := fun a b x inuse next hx => by cases hx
      complete := fun x p b hx => absurd hx (hblock x p b)
      count := fun p b l hp => by cases hp }⟩,
    { page := fun p => PageAt.unowned rfl (fun _ => List.not_mem_nil) (fun _ => List.not_mem_nil)
        (fun _ _ hx => by cases hx) (fun _ hx => by cases hx) fun _ _ hx => by cases hx
      partials := fun _ => ⟨List.nodup_nil, rfl⟩
      free := fun _ => ⟨List.nodup_nil, rfl⟩
      free_le := fun _ => Nat.zero_le _
      freePages := ⟨hnodup, rfl⟩ },
    { call := fun a b size hx => by cases hx
      lock := fun e b hx => by cases hx
      lock_unique := fun e e' b hx => by cases hx
      emptied := fun a b hx => by cases hx
      hand := fun a hx => absurd rfl hx
      ready := fun a b size hx => by cases hx
      done := fun a b size hx => by cases hx }⟩
  cases P with
  | page p => rfl
  | cache b i => cases i <;> rfl
  | hand a => rfl
  | live | held a => exact hP.elim

theorem inv_stepAt (h : Inv plat s) {act : Act} (hpromised : Promised plat s (a, act))
    (hstep : stepAt plat s a (s.pcs a) act = some s') : Inv plat s' := by
  cases hpc : s.pcs a with
  | idle =>
      rw [hpc] at hstep
      cases act with
      | salloc size =>
          dsimp only [stepAt] at hstep
          split at hstep
          · next hfits =>
              cases a with
              | cpu i =>
                  obtain rfl := Option.some.inj hstep
                  exact h.salloc_cpu hpc hfits hpromised.1 hpromised.2
              | external e =>
                  obtain rfl := Option.some.inj hstep
                  exact h.salloc_external hpc hfits hpromised.1 hpromised.2
          · obtain rfl := Option.some.inj hstep
            exact h
      | sfree obj size =>
          have hlive : s.live obj = some size := hpromised
          cases a with
          | cpu i =>
              dsimp only [stepAt] at hstep
              rw [cpubucket_eq] at hstep
              split at hstep
              · next hpage =>
                  obtain rfl := Option.some.inj hstep
                  exact h.localfree hpc hlive hpage
              · obtain rfl := Option.some.inj hstep
                exact h.remotefree hpc hlive
          | external e =>
              obtain rfl := Option.some.inj hstep
              exact h.remotefree hpc hlive
      | _ => cases hstep
  | locking b size =>
      rw [hpc] at hstep
      cases act with
      | lock =>
          dsimp only [stepAt] at hstep
          obtain ⟨hfree, heq⟩ := Option.ite_none_left_eq_some.mp hstep
          obtain rfl := Option.some.inj heq
          exact h.lock hpc hfree
      | _ => cases hstep
  | allocating b size refilled =>
      rw [hpc] at hstep
      cases act with
      | alloc =>
          dsimp only [stepAt] at hstep
          rw [cpubucket_eq] at hstep
          split at hstep
          · next x hx =>
              obtain rfl := Option.some.inj hstep
              exact h.alloc hpc hx
          · next hx =>
              cases refilled with
              | true => exact absurd hx (h.callers.ready a b size hpc)
              | false =>
                  obtain rfl := Option.some.inj hstep
                  exact h.empty hpc hx
      | _ => cases hstep
  | refilling b size =>
      rw [hpc] at hstep
      cases act with
      | refill =>
          obtain rfl := Option.some.inj hstep
          exact h.refill hpc
      | _ => cases hstep
  | popped b size p =>
      rw [hpc] at hstep
      cases act with
      | take =>
          obtain rfl := Option.some.inj hstep
          exact h.take hpc
      | _ => cases hstep
  | missing b size =>
      rw [hpc] at hstep
      cases act with
      | balloc =>
          dsimp only [stepAt] at hstep
          split at hstep
          · next p l' hpop =>
              obtain rfl := Option.some.inj hstep
              exact h.balloc hpc hpop
          · obtain rfl := Option.some.inj hstep
            exact h.outsideStep (by rw [hpc]; rfl) (by rw [hpc]; rfl) (by rw [hpc]; rfl) ⟨by rw [hpc]; rfl, rfl⟩
              (by rw [hpc]; rfl) (by rw [hpc]; rfl) (fun _ _ _ _ heq => by cases heq) rfl rfl
      | _ => cases hstep
  | fresh b size p =>
      rw [hpc] at hstep
      cases act with
      | initializePage =>
          obtain rfl := Option.some.inj hstep
          exact h.initializePage hpc
      | _ => cases hstep
  | taken b size p freelist =>
      rw [hpc] at hstep
      cases act with
      | setpage =>
          obtain rfl := Option.some.inj hstep
          exact h.setpage hpc
      | _ => cases hstep
  | done b size obj =>
      rw [hpc] at hstep
      cases act with
      | ret =>
          cases obj with
          | none => exact absurd hpc (h.callers.done a b size)
          | some x =>
              cases a with
              | cpu i =>
                  obtain rfl := Option.some.inj hstep
                  exact h.ret hpc
              | external e =>
                  obtain rfl := Option.some.inj hstep
                  exact h.ret_external hpc
      | _ => cases hstep
  | freeing b obj =>
      rw [hpc] at hstep
      cases act with
      | look =>
          obtain rfl := Option.some.inj hstep
          exact h.outsideStep (by rw [hpc]; rfl) (by rw [hpc]; rfl) (by rw [hpc]; rfl) ⟨by rw [hpc]; rfl, rfl⟩
            (by rw [hpc]; rfl) (by rw [hpc]; rfl) (fun _ _ _ _ heq => by cases heq) rfl rfl
      | _ => cases hstep
  | looked b obj inuse =>
      rw [hpc] at hstep
      cases act with
      | link =>
          obtain rfl := Option.some.inj hstep
          exact h.link hpc
      | _ => cases hstep
  | linked b obj inuse next =>
      rw [hpc] at hstep
      cases act with
      | exchange =>
          dsimp only [stepAt] at hstep
          split at hstep
          · next heq =>
              obtain rfl := Option.some.inj hstep
              exact h.exchange hpc heq.1 heq.2
          · obtain rfl := Option.some.inj hstep
            exact h.outsideStep (by rw [hpc]; rfl) (by rw [hpc]; rfl) (by rw [hpc]; rfl) ⟨by rw [hpc]; rfl, rfl⟩
              (by rw [hpc]; rfl) (by rw [hpc]; rfl) (fun _ _ _ _ heq => by cases heq) rfl rfl
      | _ => cases hstep
  | returning p =>
      rw [hpc] at hstep
      cases act with
      | bfree =>
          obtain rfl := Option.some.inj hstep
          exact h.bfree hpc
      | _ => cases hstep
  | aborted =>
      rw [hpc] at hstep
      cases act <;> cases hstep

theorem inv_step (h : Inv plat s) {m : Caller ε × Act} (hpromised : Promised plat s m)
    (hstep : step plat s m = some s') : Inv plat s' := by
  obtain ⟨a, act⟩ := m
  cases act with
  | store block offset word =>
      obtain rfl := Option.some.inj hstep
      obtain ⟨size, hlive, hoffset⟩ := hpromised
      exact h.store hlive hoffset
  | _ => exact inv_stepAt h hpromised hstep

/-! ## Soundness -/

/-- The lists of free blocks: those of pages and of `cpubuckets`, and those in
the hands of callers on the way from the one to the other -/
structure FreeLists (s : State ε) (lists : Place ε → List Nat) : Prop where
  page : ∀ p b, s.owner p = some b → IsSList s.memory (s.metadata p).freelist (lists (.page p)) ∧
    (s.metadata p).inuseChunks + (lists (.page p)).length = bucketObjinpage b
  cache : ∀ b i, IsSList s.memory ((s.buckets b).at i).freelist (lists (.cache b i))
  hand : ∀ a, IsSList s.memory (s.pcs a).hand (lists (.hand a))
  nodup : ∀ P, (lists P).Nodup
  disjoint : ∀ P Q, P ≠ Q → (lists P).Disjoint (lists Q)
  free : ∀ P, ∀ x ∈ lists P, s.live x = none ∧ (∀ a, (s.pcs a).held ≠ some x) ∧ ∃ p b, s.IsBlock x p b

/-- Block `x` of bucket `b` is not in use, and can hold what was asked for. -/
structure Returns (plat : Platform) (s : State ε) (b size x : Nat) : Prop where
  notLive : s.live x = none
  large : size ≤ objSize b
  inPage : ∃ p, s.addr p ≤ x ∧ x + objSize b ≤ s.addr p + pageSize
  apart : ∀ y size', s.live y = some size' → x + objSize b ≤ y ∨ y + objSize (bucketOf plat size') ≤ x

structure Sound (plat : Platform) (s : State ε) : Prop where
  returns : ∀ a b size x, s.pcs a = .done b size (some x) → Returns plat s b size x
  served : ∀ a b size, s.pcs a ≠ .done b size none
  apart : ∀ x y size size', s.live x = some size → s.live y = some size' → x ≠ y →
    x + objSize (bucketOf plat size) ≤ y ∨ y + objSize (bucketOf plat size') ≤ x
  lists : ∃ lists, FreeLists s lists
  partials : ∀ b p, p ∈ (s.buckets b).partials.items ↔
    s.owner p = some b ∧ 0 < (s.metadata p).inuseChunks ∧ (s.metadata p).inuseChunks < bucketObjinpage b
  free : ∀ b p, (∀ a, (s.pcs a).poppedPage ≠ some (b, p)) →
    (p ∈ (s.buckets b).free.items ↔ s.owner p = some b ∧ (s.metadata p).inuseChunks = 0)
  counts : ∀ b, (s.buckets b).partials.cnt = (s.buckets b).partials.items.length ∧
    (s.buckets b).free.cnt = (s.buckets b).free.items.length ∧ (s.buckets b).free.cnt ≤ maxFreePages

omit [DecidableEq ε] in
theorem Blocks.freeLists {place : Nat → Option (Place ε)} (h : Blocks plat s place) : ∃ lists, FreeLists s lists := by
  have hlist : ∀ P : Place ε, ∃ l, (P.IsList → SList.Chain s.memory place P (s.head P) l) ∧ (¬P.IsList → l = []) := by
    intro P
    by_cases hP : P.IsList
    · obtain ⟨l, hl⟩ := h.chains P hP
      exact ⟨l, fun _ => hl, fun hnot => absurd hP hnot⟩
    · exact ⟨[], fun hyes => absurd hyes hP, fun _ => rfl⟩
  choose lists hchain hnil using hlist
  have hmem : ∀ P x, x ∈ lists P → P.IsList ∧ place x = some P := by
    intro P x hx
    by_cases hP : P.IsList
    · exact ⟨hP, ((hchain P hP).mem x).mp hx⟩
    · rw [hnil P hP] at hx
      exact absurd hx List.not_mem_nil
  refine ⟨lists, fun p b hown => ?_, fun b i => (hchain (.cache b i) trivial).list,
    fun a => (hchain (.hand a) trivial).list, fun P => ?_, fun P Q hne x hx hx' => ?_, fun P x hx => ⟨?_, fun a ha => ?_, ?_⟩⟩
  · have hl := hchain (.page p) trivial
    refine ⟨?_, h.count p b _ hown hl⟩
    have hlist := hl.list
    rwa [State.head_page_owned hown] at hlist
  · by_cases hP : P.IsList
    · exact (hchain P hP).nodup
    · rw [hnil P hP]
      exact List.nodup_nil
  · exact hne (Option.some.inj ((hmem P x hx).2.symm.trans (hmem Q x hx').2))
  · obtain ⟨hP, hplace⟩ := hmem P x hx
    cases hlive : s.live x with
    | none => rfl
    | some size =>
        obtain rfl := Option.some.inj (hplace.symm.trans (h.live x size hlive).1)
        exact hP.elim
  · obtain ⟨hP, hplace⟩ := hmem P x hx
    obtain rfl := Option.some.inj (hplace.symm.trans (h.held a x ha))
    exact hP.elim
  · exact (h.fits x P (hmem P x hx).2).isBlock

omit [DecidableEq ε] in
theorem Blocks.liveBlock {place : Nat → Option (Place ε)} (h : Blocks plat s place) (hx : s.live x = some size) :
    ∃ p, s.IsBlock x p (bucketOf plat size) := by
  obtain ⟨size', p, hsize', hblock⟩ := h.fits x _ (h.live x size hx).1
  obtain rfl := Option.some.inj (hx.symm.trans hsize')
  exact ⟨p, hblock⟩

omit [DecidableEq ε] in
theorem Inv.sound (h : Inv plat s) : Sound plat s := by
  obtain ⟨place, hplace⟩ := h.blocks
  refine ⟨fun a b size x hpc => ?_, h.callers.done, fun x y size size' hx hy hne => ?_, hplace.freeLists,
    fun b p => (h.pages.page p).partials b, fun b p hnobody => ?_,
    fun b => ⟨(h.pages.partials b).cnt, (h.pages.free b).cnt, h.pages.free_le b⟩⟩
  · have hxplace := hplace.held a x (by rw [hpc]; rfl)
    obtain ⟨c, p, -, hc, hblock⟩ := hplace.fits x _ hxplace
    rw [hpc] at hc
    obtain rfl := Option.some.inj hc
    obtain ⟨hb, -, hle, hlt⟩ := h.callers.call a b size (by rw [hpc]; rfl)
    have hnot : ∀ y size', s.live y = some size' → y ≠ x := by
      rintro y size' hy rfl
      have := Option.some.inj (hxplace.symm.trans (hplace.live y size' hy).1)
      cases this
    refine ⟨?_, ?_, ⟨p, hblock.bounds⟩, fun y size' hy => ?_⟩
    · cases hlive : s.live x with
      | none => rfl
      | some size' => exact absurd rfl (hnot x size' hlive)
    · rw [hb]
      exact size_le_objSize hle hlt
    · obtain ⟨q, hblock'⟩ := hplace.liveBlock hy
      exact hblock.disjoint hblock' (Ne.symm (hnot y size' hy))
  · obtain ⟨p, hblock⟩ := hplace.liveBlock hx
    obtain ⟨q, hblock'⟩ := hplace.liveBlock hy
    exact hblock.disjoint hblock' hne
  · rw [(h.pages.page p).free b]
    exact and_congr_right fun _ => and_iff_left hnobody

/-- In every run of callers on CPUs and without one, blocks that are returned are
free and large enough, and the lists of blocks and of pages are what the
metadata of the pages says. -/
theorem slab_sound (plat : Platform) (pagesStart : Nat) (pages : List Nat) (hnodup : pages.Nodup)
    (metadata : Nat → PageMetadata) (memory : Nat → Option Nat) (moves : List (Caller ε × Act))
    (hpromised : Along (step plat) (Promised plat) (init pagesStart pages metadata memory) moves)
    (hrun : run (step plat) (init pagesStart pages metadata memory) moves = some s') : Sound plat s' :=
  (invariant_along (fun _ _ _ hp hstep hinv => inv_step hinv hp hstep) hpromised hrun
    (inv_init hnodup pagesStart metadata memory)).sound

/-- A CPU takes a page with four blocks and returns one of them, and a thread
without a CPU frees it. -/
def freedElsewhere : List (Caller Unit × Act) :=
  [(.cpu 0, .salloc 524288), (.cpu 0, .alloc), (.cpu 0, .refill), (.cpu 0, .balloc), (.cpu 0, .initializePage),
    (.cpu 0, .take), (.cpu 0, .setpage), (.cpu 0, .alloc), (.cpu 0, .ret),
    (.external (), .sfree 2097152 524288), (.external (), .look), (.external (), .link), (.external (), .exchange)]

theorem freedElsewhere_sound :
    ∃ s', run (step x86) (init 0 [1] (fun _ => ⟨none, 0⟩) fun _ => none) freedElsewhere = some s' ∧ Sound x86 s' := by
  have hrun : (run (step x86) (init 0 [1] (fun _ => ⟨none, 0⟩) fun _ => none) freedElsewhere).isSome = true := by
    decide +kernel
  obtain ⟨s', hs'⟩ := Option.isSome_iff_exists.mp hrun
  exact ⟨s', hs', slab_sound x86 0 [1] (by decide) _ _ freedElsewhere (by decide +kernel) hs'⟩

/-! ## No block is lost -/

/-- Where a block of a page of a bucket is: with its owner, with the one caller
that is about to return or to free it, or in one of the lists -/
structure Kept (s : State ε) (lists : Place ε → List Nat) (x : Nat) : Prop where
  somewhere : (∃ size, s.live x = some size) ∨ (∃ a, (s.pcs a).held = some x) ∨ ∃ P, x ∈ lists P
  unique : ∀ a a', (s.pcs a).held = some x → (s.pcs a').held = some x → a = a'
  notLive : ∀ a, (s.pcs a).held = some x → s.live x = none

omit [DecidableEq ε] in
theorem Inv.kept (h : Inv plat s) : ∃ lists, FreeLists s lists ∧ ∀ x p b, s.IsBlock x p b → Kept s lists x := by
  obtain ⟨place, hplace⟩ := h.blocks
  obtain ⟨lists, hlists⟩ := hplace.freeLists
  refine ⟨lists, hlists, fun x p b hblock => ⟨?_, fun a a' ha ha' => ?_, fun a ha => ?_⟩⟩
  · cases hx : place x with
    | none => exact absurd hx (hplace.complete x p b hblock)
    | some P =>
        have hin : ∀ {head : Option Nat}, P.IsList → s.head P = head → IsSList s.memory head (lists P) → x ∈ lists P := by
          intro head hP hhead hlist
          obtain ⟨l, hl⟩ := hplace.chains P hP
          rw [hhead] at hl
          obtain rfl := hl.list.unique hlist
          exact (hl.mem x).mpr hx
        cases P with
        | page q =>
            obtain ⟨c, hblock'⟩ := hplace.fits x _ hx
            exact Or.inr (Or.inr ⟨_, hin trivial (State.head_page_owned hblock'.1) (hlists.page q c hblock'.1).1⟩)
        | cache c i => exact Or.inr (Or.inr ⟨_, hin trivial rfl (hlists.cache c i)⟩)
        | hand a => exact Or.inr (Or.inr ⟨_, hin trivial rfl (hlists.hand a)⟩)
        | live =>
            obtain ⟨size, q, hlive, -⟩ := hplace.fits x _ hx
            exact Or.inl ⟨size, hlive⟩
        | held a =>
            obtain ⟨c, q, hheld, -, -⟩ := hplace.fits x _ hx
            exact Or.inr (Or.inl ⟨a, hheld⟩)
  · exact Place.held.inj (Option.some.inj ((hplace.held a x ha).symm.trans (hplace.held a' x ha')))
  · cases hlive : s.live x with
    | none => rfl
    | some size =>
        have := Option.some.inj ((hplace.held a x ha).symm.trans (hplace.live x size hlive).1)
        cases this

/-- In every run no block is lost, and none is with two callers. -/
theorem no_block_lost (plat : Platform) (pagesStart : Nat) (pages : List Nat) (hnodup : pages.Nodup)
    (metadata : Nat → PageMetadata) (memory : Nat → Option Nat) (moves : List (Caller ε × Act))
    (hpromised : Along (step plat) (Promised plat) (init pagesStart pages metadata memory) moves)
    (hrun : run (step plat) (init pagesStart pages metadata memory) moves = some s') :
    ∃ lists, FreeLists s' lists ∧ ∀ x p b, s'.IsBlock x p b → Kept s' lists x :=
  (invariant_along (fun _ _ _ hp hstep hinv => inv_step hinv hp hstep) hpromised hrun
    (inv_init hnodup pagesStart metadata memory)).kept

theorem freedElsewhere_kept :
    ∃ s', run (step x86) (init 0 [1] (fun _ => ⟨none, 0⟩) fun _ => none) freedElsewhere = some s' ∧
      ∃ lists, FreeLists s' lists ∧ ∀ x p b, s'.IsBlock x p b → Kept s' lists x := by
  have hrun : (run (step x86) (init 0 [1] (fun _ => ⟨none, 0⟩) fun _ => none) freedElsewhere).isSome = true := by
    decide +kernel
  obtain ⟨s', hs'⟩ := Option.isSome_iff_exists.mp hrun
  exact ⟨s', hs', no_block_lost x86 0 [1] (by decide) _ _ freedElsewhere (by decide +kernel) hs'⟩

end Slab

end Nosv
