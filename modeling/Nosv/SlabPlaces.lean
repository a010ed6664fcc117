import Nosv.SlabBlocks

/-!
# Where the blocks are

A block goes from place to place, alone or with all others of its list, and
each list of free blocks has exactly those of its place. The metadata of a
page counts the blocks that are not in its list.
-/

namespace Nosv

open SList

namespace Slab

open Teardown

/-! ## Callers -/

namespace Pc

/-- The size that is asked for, with its bucket -/
def call : Pc → Option (Nat × Nat)
  | .locking b size | .allocating b size _ | .refilling b size | .popped b size _ | .missing b size
  | .fresh b size _ | .taken b size _ _ | .done b size _ => some (b, size)
  | .idle | .freeing _ _ | .looked _ _ _ | .linked _ _ _ _ | .returning _ | .aborted => none

/-- The bucket that the caller allocates from; a caller without a CPU has
the lock of its slow bucket. -/
def inside : Pc → Option Nat
  | .allocating b _ _ | .refilling b _ | .popped b _ _ | .missing b _ | .fresh b _ _ | .taken b _ _ _
  | .done b _ _ => some b
  | .idle | .locking _ _ | .freeing _ _ | .looked _ _ _ | .linked _ _ _ _ | .returning _ | .aborted => none

/-- The caller has found its `cpubucket` empty. -/
def emptied : Pc → Option Nat
  | .refilling b _ | .popped b _ _ | .missing b _ | .fresh b _ _ | .taken b _ _ _ => some b
  | .idle | .locking _ _ | .allocating _ _ _ | .done _ _ _ | .freeing _ _ | .looked _ _ _
  | .linked _ _ _ _ | .returning _ | .aborted => none

/-- The block that the caller is about to return or to free -/
def held : Pc → Option Nat
  | .done _ _ obj => obj
  | .freeing _ obj | .looked _ obj _ | .linked _ obj _ _ => some obj
  | .idle | .locking _ _ | .allocating _ _ _ | .refilling _ _ | .popped _ _ _ | .missing _ _ | .fresh _ _ _
  | .taken _ _ _ _ | .returning _ | .aborted => none

/-- The bucket of that block -/
def heldBucket : Pc → Option Nat
  | .done b _ _ | .freeing b _ | .looked b _ _ | .linked b _ _ _ => some b
  | .idle | .locking _ _ | .allocating _ _ _ | .refilling _ _ | .popped _ _ _ | .missing _ _ | .fresh _ _ _
  | .taken _ _ _ _ | .returning _ | .aborted => none

/-- The list of free blocks that the caller has taken from a page -/
def hand : Pc → Option Nat
  | .taken _ _ _ freelist => freelist
  | .idle | .locking _ _ | .allocating _ _ _ | .refilling _ _ | .popped _ _ _ | .missing _ _ | .fresh _ _ _
  | .done _ _ _ | .freeing _ _ | .looked _ _ _ | .linked _ _ _ _ | .returning _ | .aborted => none

/-- The bucket and the page of that list -/
def handPage : Pc → Option (Nat × Nat)
  | .taken b _ p _ => some (b, p)
  | .idle | .locking _ _ | .allocating _ _ _ | .refilling _ _ | .popped _ _ _ | .missing _ _ | .fresh _ _ _
  | .done _ _ _ | .freeing _ _ | .looked _ _ _ | .linked _ _ _ _ | .returning _ | .aborted => none

/-- The page that the caller has taken out of the list of free pages -/
def poppedPage : Pc → Option (Nat × Nat)
  | .popped b _ p => some (b, p)
  | .idle | .locking _ _ | .allocating _ _ _ | .refilling _ _ | .missing _ _ | .fresh _ _ _ | .taken _ _ _ _
  | .done _ _ _ | .freeing _ _ | .looked _ _ _ | .linked _ _ _ _ | .returning _ | .aborted => none

/-- The page that the caller has got from the backbone, or gives back to it -/
def outside : Pc → Option Nat
  | .fresh _ _ p | .returning p => some p
  | .idle | .locking _ _ | .allocating _ _ _ | .refilling _ _ | .popped _ _ _ | .missing _ _ | .taken _ _ _ _
  | .done _ _ _ | .freeing _ _ | .looked _ _ _ | .linked _ _ _ _ | .aborted => none

end Pc

/-! ## Places -/

variable {ε : Type}

/-- Which `cpubucket` a caller uses; `none` is the slow one. -/
def Caller.index : Caller ε → Option Nat
  | .cpu c => some c
  | .external _ => none

def CacheBucket.at (b : CacheBucket) : Option Nat → CpuBucket
  | some c => b.cpubuckets c
  | none => b.slowBucket

inductive Place (ε : Type) where
  /-- the list of a page -/
  | page (page : Nat)
  /-- the list of a `cpubucket` -/
  | cache (bucket : Nat) (index : Option Nat)
  | hand (a : Caller ε)
  | live
  | held (a : Caller ε)
  deriving DecidableEq

/-- Places with a list -/
def Place.IsList : Place ε → Prop
  | .page _ | .cache _ _ | .hand _ => True
  | .live | .held _ => False

variable (plat : Platform) (s : State ε)

def State.head : Place ε → Option Nat
  | .page p => if (s.owner p).isSome then (s.metadata p).freelist else none
  | .cache b i => ((s.buckets b).at i).freelist
  | .hand a => (s.pcs a).hand
  | .live | .held _ => none

theorem State.head_page (p : Nat) :
    s.head (.page p) = if (s.owner p).isSome then (s.metadata p).freelist else none := rfl

variable {s} in
theorem State.head_page_owned {p b : Nat} (h : s.owner p = some b) : s.head (.page p) = (s.metadata p).freelist := by
  rw [State.head_page, h]
  rfl

/-- What a place says about a block -/
def State.Fits (x : Nat) : Place ε → Prop
  | .page p => ∃ b, s.IsBlock x p b
  | .cache b i => ∃ p, ((s.buckets b).at i).slab = some p ∧ s.IsBlock x p b
  | .hand a => ∃ b p, (s.pcs a).handPage = some (b, p) ∧ s.IsBlock x p b
  | .live => ∃ size p, s.live x = some size ∧ s.IsBlock x p (bucketOf plat size)
  | .held a => ∃ b p, (s.pcs a).held = some x ∧ (s.pcs a).heldBucket = some b ∧ s.IsBlock x p b

/-- Blocks and places -/
structure Blocks (place : Nat → Option (Place ε)) : Prop where
  chains : ∀ P : Place ε, P.IsList → ∃ l, SList.Chain s.memory place P (s.head P) l
  fits : ∀ x P, place x = some P → s.Fits plat x P
  live : ∀ x size, s.live x = some size →
    place x = some .live ∧ plat.Fits size ∧ 2 ≤ size ∧ size < 18446744073709551616
  held : ∀ a x, (s.pcs a).held = some x → place x = some (.held a)
  linked : ∀ a b x inuse next, s.pcs a = .linked b x inuse next → s.memory x = next
  complete : ∀ x p b, s.IsBlock x p b → place x ≠ none
  count : ∀ p b l, s.owner p = some b → SList.Chain s.memory place (.page p) (s.head (.page p)) l →
    (s.metadata p).inuseChunks + l.length = bucketObjinpage b

variable {plat s} {s' : State ε} {place : Nat → Option (Place ε)} {P Q R : Place ε} {x p b : Nat}

/-! ## Steps that move no block -/

theorem State.Fits.mono (hblock : ∀ {p b}, s.IsBlock x p b → s'.IsBlock x p b)
    (hslab : ∀ b i, P = .cache b i → ((s'.buckets b).at i).slab = ((s.buckets b).at i).slab)
    (hhand : ∀ a, P = .hand a → (s'.pcs a).handPage = (s.pcs a).handPage)
    (hlive : P = .live → s'.live x = s.live x)
    (hheld : ∀ a, P = .held a → (s'.pcs a).held = (s.pcs a).held ∧ (s'.pcs a).heldBucket = (s.pcs a).heldBucket)
    (h : s.Fits plat x P) : s'.Fits plat x P := by
  cases P with
  | page p => exact h.imp fun b hb => hblock hb
  | cache b i =>
      obtain ⟨p, hp, hx⟩ := h
      exact ⟨p, (hslab b i rfl).trans hp, hblock hx⟩
  | hand a =>
      obtain ⟨b, p, hp, hx⟩ := h
      exact ⟨b, p, (hhand a rfl).trans hp, hblock hx⟩
  | live =>
      obtain ⟨size, p, hl, hx⟩ := h
      exact ⟨size, p, (hlive rfl).trans hl, hblock hx⟩
  | held a =>
      obtain ⟨b, p, ho, hb, hx⟩ := h
      exact ⟨b, p, (hheld a rfl).1.trans ho, (hheld a rfl).2.trans hb, hblock hx⟩

theorem State.Fits.congr (hstart : s'.pagesStart = s.pagesStart) (howner : s'.owner = s.owner)
    (hslab : ∀ b i, P = .cache b i → ((s'.buckets b).at i).slab = ((s.buckets b).at i).slab)
    (hhand : ∀ a, P = .hand a → (s'.pcs a).handPage = (s.pcs a).handPage)
    (hlive : P = .live → s'.live x = s.live x)
    (hheld : ∀ a, P = .held a → (s'.pcs a).held = (s.pcs a).held ∧ (s'.pcs a).heldBucket = (s.pcs a).heldBucket)
    (h : s.Fits plat x P) : s'.Fits plat x P :=
  h.mono (fun hx => hx.congr hstart (congrFun howner _)) hslab hhand hlive hheld

/-- What a caller has, and where, is the same in two states. -/
structure SameHands (s s' : State ε) : Prop where
  held : ∀ a, (s'.pcs a).held = (s.pcs a).held
  heldBucket : ∀ a, (s'.pcs a).heldBucket = (s.pcs a).heldBucket
  hand : ∀ a, (s'.pcs a).hand = (s.pcs a).hand
  handPage : ∀ a, (s'.pcs a).handPage = (s.pcs a).handPage

theorem Blocks.frame (h : Blocks plat s place) (hstart : s'.pagesStart = s.pagesStart) (howner : s'.owner = s.owner)
    (hlive : s'.live = s.live) (hmetadata : s'.metadata = s.metadata)
    (hcache : ∀ b i, (s'.buckets b).at i = (s.buckets b).at i) (hhands : SameHands s s')
    (hmemory : ∀ x P, P.IsList → place x = some P → s'.memory x = s.memory x)
    (hlinked : ∀ a b x inuse next, s'.pcs a = .linked b x inuse next → s'.memory x = next) :
    Blocks plat s' place := by
  have hhead : ∀ P, s'.head P = s.head P := by
    intro P
    cases P with
    | page p =>
        rw [State.head_page, State.head_page, howner, hmetadata]
    | cache b i => exact congrArg CpuBucket.freelist (hcache b i)
    | hand a => exact hhands.hand a
    | live | held a => rfl
  have hframe : ∀ {P l}, P.IsList → SList.Chain s.memory place P (s.head P) l → SList.Chain s'.memory place P (s'.head P) l := by
    intro P l hP hl
    rw [hhead]
    exact hl.frame (fun x hx => hmemory x P hP hx) fun _ => Iff.rfl
  refine ⟨fun P hP => (h.chains P hP).imp fun l => hframe hP, fun x P hx => ?_, fun x size hx => ?_, fun a x hx => ?_,
    hlinked, fun x p b hx => ?_, fun p b l hp hl => ?_⟩
  · exact (h.fits x P hx).congr hstart howner (fun b i _ => by rw [hcache]) (fun a _ => hhands.handPage a)
      (fun _ => by rw [hlive]) fun a _ => ⟨hhands.held a, hhands.heldBucket a⟩
  · exact h.live x size (hlive ▸ hx)
  · exact h.held a x ((hhands.held a).symm.trans hx)
  · exact h.complete x p b (hx.congr hstart.symm (congrFun howner.symm p))
  · rw [hmetadata]
    refine h.count p b l (howner ▸ hp) ?_
    rw [hhead] at hl
    exact hl.frame (fun x hx => (hmemory x (.page p) trivial hx).symm) fun _ => Iff.rfl

/-! ## A block goes to another place -/

/-- Block `x` goes from the front of `P` to the front of `Q`, where these are lists. -/
structure Relocates (plat : Platform) (s s' : State ε) (x : Nat) (P Q : Place ε) : Prop where
  start : s'.pagesStart = s.pagesStart
  owner : s'.owner = s.owner
  memory : ∀ y, y ≠ x → s'.memory y = s.memory y
  heads : ∀ R, R ≠ P → R ≠ Q → s'.head R = s.head R
  fromList : P.IsList → s.head P = some x ∧ s'.head P = s.memory x
  toList : Q.IsList → s'.head Q = some x ∧ s'.memory x = s.head Q
  inuse : ∀ p, P ≠ .page p ∧ (Q ≠ .page p → (s'.metadata p).inuseChunks = (s.metadata p).inuseChunks)
    ∧ (Q = .page p → (s'.metadata p).inuseChunks + 1 = (s.metadata p).inuseChunks)
  slab : ∀ b i, ((s'.buckets b).at i).slab = ((s.buckets b).at i).slab
  live : ∀ y, y ≠ x → s'.live y = s.live y
  handPage : ∀ a, (s'.pcs a).handPage = (s.pcs a).handPage
  held : ∀ a y, y ≠ x → ((s'.pcs a).held = some y ↔ (s.pcs a).held = some y)
  heldBucket : ∀ a y, y ≠ x → (s.pcs a).held = some y → (s'.pcs a).heldBucket = (s.pcs a).heldBucket
  liveSelf : ∀ size, s'.live x = some size → Q = .live ∧ plat.Fits size ∧ 2 ≤ size ∧ size < 18446744073709551616
  heldSelf : ∀ a, (s'.pcs a).held = some x → Q = .held a
  linked : ∀ a b y inuse next, s'.pcs a = .linked b y inuse next →
    s'.memory y = next

theorem Blocks.relocate (h : Blocks plat s place) (hx : place x = some P) (hne : P ≠ Q)
    (hr : Relocates plat s s' x P Q) (hfits : s'.Fits plat x Q) :
    Blocks plat s' (Function.update place x (some Q)) := by
  have hother : ∀ {y R}, R ≠ P → R ≠ Q → (Function.update place x (some Q) y = some R ↔ place y = some R) := by
    intro y R hRP hRQ
    rw [Function.update_apply]
    split
    · next hy =>
        rw [hy, hx]
        exact iff_of_false (fun heq => hRQ (Option.some.inj heq).symm) fun heq => hRP (Option.some.inj heq).symm
    · exact Iff.rfl
  have hchain : ∀ {R l}, R ≠ P → R ≠ Q →
      (SList.Chain s'.memory (Function.update place x (some Q)) R (s'.head R) l ↔ SList.Chain s.memory place R (s.head R) l) := by
    intro R l hRP hRQ
    rw [hr.heads R hRP hRQ]
    have hmemory : ∀ y, place y = some R → y ≠ x := by
      rintro y hy rfl
      exact hRP (Option.some.inj (hx.symm.trans hy)).symm
    constructor
    · intro hl
      exact hl.frame (fun y hy => (hr.memory y (hmemory y ((hother hRP hRQ).mp hy))).symm)
        fun y => (hother hRP hRQ).symm
    · intro hl
      exact hl.frame (fun y hy => hr.memory y (hmemory y hy)) fun y => hother hRP hRQ
  have hto : Q.IsList → ∀ {l}, SList.Chain s.memory place Q (s.head Q) l →
      SList.Chain s'.memory (Function.update place x (some Q)) Q (s'.head Q) (x :: l) := by
    intro hQ l hl
    obtain ⟨hhead, hlink⟩ := hr.toList hQ
    have hnot : place x ≠ some Q := fun heq => hne (Option.some.inj (hx.symm.trans heq))
    have hpush := hl.push hnot
    rw [hhead]
    refine hpush.frame (fun y _ => ?_) fun _ => Iff.rfl
    rw [Function.update_apply]
    split
    · next hy => rw [hy, hlink]
    · next hy => exact hr.memory y hy
  refine ⟨fun R hR => ?_, fun y R hy => ?_, fun y size hy => ?_, fun a y hy => ?_, hr.linked, fun y p b hy => ?_,
    fun p b l hp hl => ?_⟩
  · by_cases hRQ : R = Q
    · subst hRQ
      obtain ⟨l, hl⟩ := h.chains R hR
      exact ⟨x :: l, hto hR hl⟩
    · by_cases hRP : R = P
      · subst hRP
        obtain ⟨hhead, hhead'⟩ := hr.fromList hR
        obtain ⟨l, hl⟩ := h.chains R hR
        rw [hhead] at hl
        obtain ⟨l', rfl, hl'⟩ := hl.pop (q := some Q) fun heq => hne (Option.some.inj heq).symm
        refine ⟨l', ?_⟩
        rw [hhead']
        refine hl'.frame (fun y hy => hr.memory y ?_) fun _ => Iff.rfl
        rintro rfl
        rw [Function.update_self] at hy
        exact hne (Option.some.inj hy).symm
      · obtain ⟨l, hl⟩ := h.chains R hR
        exact ⟨l, (hchain hRP hRQ).mpr hl⟩
  · rw [Function.update_apply] at hy
    split at hy
    · next hyx =>
        obtain rfl := Option.some.inj hy
        rw [hyx]
        exact hfits
    · next hyx =>
        have hold := h.fits y R hy
        refine hold.congr hr.start hr.owner (fun b i _ => hr.slab b i) (fun a _ => hr.handPage a)
          (fun _ => hr.live y hyx) fun a ha => ?_
        subst ha
        obtain ⟨b, p, hheld, -, -⟩ := hold
        exact ⟨((hr.held a y hyx).mpr hheld).trans hheld.symm, hr.heldBucket a y hyx hheld⟩
  · by_cases hyx : y = x
    · rw [hyx] at hy ⊢
      obtain ⟨rfl, hsize⟩ := hr.liveSelf size hy
      exact ⟨Function.update_self .., hsize⟩
    · rw [hr.live y hyx] at hy
      obtain ⟨hplace, hsize⟩ := h.live y size hy
      exact ⟨by rw [Function.update_of_ne hyx]; exact hplace, hsize⟩
  · by_cases hyx : y = x
    · rw [hyx] at hy ⊢
      rw [Function.update_self, hr.heldSelf a hy]
    · rw [Function.update_of_ne hyx]
      exact h.held a y ((hr.held a y hyx).mp hy)
  · by_cases hyx : y = x
    · rw [hyx, Function.update_self]
      exact Option.some_ne_none Q
    · rw [Function.update_of_ne hyx]
      exact h.complete y p b (hy.congr hr.start.symm (congrFun hr.owner.symm p))
  · obtain ⟨hP, hsame, hless⟩ := hr.inuse p
    have howner : s.owner p = some b := by rw [← hr.owner, hp]
    by_cases hQ : Q = .page p
    · obtain ⟨l₀, hl₀⟩ := h.chains (.page p) trivial
      have hcount := h.count p b l₀ howner hl₀
      subst hQ
      obtain rfl := hl.list.unique (hto trivial hl₀).list
      rw [List.length_cons]
      have hinuse := hless rfl
      omega
    · rw [hsame hQ]
      exact h.count p b l howner ((hchain (Ne.symm hP) (Ne.symm hQ)).mp hl)

/-! ## All blocks of a list go to another one -/

/-- The blocks of list `P` go to list `Q`, which has none. -/
structure Empties (plat : Platform) (s s' : State ε) (place : Nat → Option (Place ε)) (P Q : Place ε) : Prop where
  start : s'.pagesStart = s.pagesStart
  owner : s'.owner = s.owner
  memory : s'.memory = s.memory
  live : s'.live = s.live
  heads : ∀ R, R ≠ P → R ≠ Q → s'.head R = s.head R
  fromHead : s'.head P = none
  toHead : s'.head Q = s.head P
  fromList : P.IsList
  toList : Q.IsList
  nobody : ∀ x, place x ≠ some Q
  slab : ∀ b i, Q ≠ .cache b i → ((s'.buckets b).at i).slab = ((s.buckets b).at i).slab
  handPage : ∀ a, P ≠ .hand a → Q ≠ .hand a → (s'.pcs a).handPage = (s.pcs a).handPage
  held : ∀ a, (s'.pcs a).held = (s.pcs a).held
  heldBucket : ∀ a, (s'.pcs a).heldBucket = (s.pcs a).heldBucket
  inuse : ∀ p, P ≠ .page p → (s'.metadata p).inuseChunks = (s.metadata p).inuseChunks
  full : ∀ p b, P = .page p → s.owner p = some b → (s'.metadata p).inuseChunks = bucketObjinpage b
  notPage : ∀ p, Q ≠ .page p
  fits : ∀ x, place x = some P → s'.Fits plat x Q
  linked : ∀ a b x inuse next, s'.pcs a = .linked b x inuse next → s'.memory x = next

variable [DecidableEq ε]

theorem Blocks.empty (h : Blocks plat s place) (hr : Empties plat s s' place P Q) (hne : P ≠ Q) :
    Blocks plat s' (moveAll place P (some Q)) := by
  have hother : ∀ {x R}, R ≠ P → R ≠ Q → (moveAll place P (some Q) x = some R ↔ place x = some R) :=
    fun hRP hRQ => moveAll_other hRP fun heq => hRQ (Option.some.inj heq).symm
  have hchain : ∀ {R l}, R ≠ P → R ≠ Q → (SList.Chain s'.memory (moveAll place P (some Q)) R (s'.head R) l ↔
      SList.Chain s.memory place R (s.head R) l) := by
    intro R l hRP hRQ
    rw [hr.heads R hRP hRQ, hr.memory]
    exact ⟨fun hl => hl.frame (fun _ _ => rfl) fun _ => (hother hRP hRQ).symm,
      fun hl => hl.frame (fun _ _ => rfl) fun _ => hother hRP hRQ⟩
  -- places without a list keep their blocks
  have hstays : ∀ {x R}, ¬R.IsList → (moveAll place P (some Q) x = some R ↔ place x = some R) := by
    intro x R hR
    refine hother ?_ ?_
    · rintro rfl
      exact hR hr.fromList
    · rintro rfl
      exact hR hr.toList
  refine ⟨fun R hR => ?_, fun x R hx => ?_, fun x size hx => ?_, fun a x hx => ?_, hr.linked, fun x p b hx => ?_,
    fun p b l hp hl => ?_⟩
  · by_cases hRQ : R = Q
    · subst hRQ
      obtain ⟨l, hl⟩ := h.chains P hr.fromList
      refine ⟨l, ?_⟩
      rw [hr.toHead, hr.memory]
      exact hl.moveAll_to hr.nobody
    · by_cases hRP : R = P
      · subst hRP
        refine ⟨[], ?_⟩
        rw [hr.fromHead]
        exact SList.Chain.moveAll_from fun heq => hRQ (Option.some.inj heq).symm
      · obtain ⟨l, hl⟩ := h.chains R hR
        exact ⟨l, (hchain hRP hRQ).mpr hl⟩
  · unfold moveAll at hx
    split at hx
    · next hP =>
        obtain rfl := Option.some.inj hx
        exact hr.fits x hP
    · next hP =>
        have hRP : R ≠ P := by
          rintro rfl
          exact hP hx
        have hRQ : R ≠ Q := by
          rintro rfl
          exact hr.nobody x hx
        refine (h.fits x R hx).congr hr.start hr.owner (fun b i hR => hr.slab b i ?_) (fun a hR => hr.handPage a ?_ ?_)
          (fun _ => by rw [hr.live]) fun a _ => ⟨hr.held a, hr.heldBucket a⟩
        · exact fun heq => hRQ (hR.trans heq.symm)
        · exact fun heq => hRP (hR.trans heq.symm)
        · exact fun heq => hRQ (hR.trans heq.symm)
  · rw [hr.live] at hx
    obtain ⟨hplace, hsize⟩ := h.live x size hx
    exact ⟨(hstays (R := .live) id).mpr hplace, hsize⟩
  · rw [hr.held] at hx
    exact (hstays (R := .held a) id).mpr (h.held a x hx)
  · have hplaced := h.complete x p b (hx.congr hr.start.symm (congrFun hr.owner.symm p))
    unfold moveAll
    split
    · exact Option.some_ne_none Q
    · exact hplaced
  · rw [hr.owner] at hp
    by_cases hP : P = .page p
    · subst hP
      rw [hr.fromHead] at hl
      obtain rfl : l = [] := hl.list.unique rfl
      exact hr.full p b rfl hp
    · rw [hr.inuse p hP]
      exact h.count p b l hp ((hchain (Ne.symm hP) (Ne.symm (hr.notPage p))).mp hl)

/-! ## Pages come and go -/

omit [DecidableEq ε] in
theorem State.Fits.isBlock (h : s.Fits plat x P) : ∃ p b, s.IsBlock x p b := by
  cases P with
  | page p => exact ⟨p, h⟩
  | cache b i =>
      obtain ⟨p, -, hx⟩ := h
      exact ⟨p, b, hx⟩
  | hand a =>
      obtain ⟨b, p, -, hx⟩ := h
      exact ⟨p, b, hx⟩
  | live =>
      obtain ⟨size, p, -, hx⟩ := h
      exact ⟨p, _, hx⟩
  | held a =>
      obtain ⟨b, p, -, -, hx⟩ := h
      exact ⟨p, b, hx⟩

omit [DecidableEq ε] in
theorem State.Fits.owned {p b : Nat} (h : s.Fits plat x P) (hx : x ∈ s.blocks p b) (hb : b < slabBuckets) :
    s.owner p ≠ none := by
  obtain ⟨q, c, hblock⟩ := h.isBlock
  obtain ⟨i, hi, rfl⟩ := mem_blocks.mp hx
  have hbounds : State.IsBlock { s with owner := fun _ => some b } (s.addr p + i * objSize b) p b := ⟨rfl, hb, i, hi, rfl⟩
  obtain rfl := addr_unique hblock.in_page hbounds.in_page
  rw [hblock.1]
  exact Option.some_ne_none c

/-- The places when all blocks of page `p` are in its list -/
def withPage (s : State ε) (place : Nat → Option (Place ε)) (p b : Nat) : Nat → Option (Place ε) :=
  fun x => if x ∈ s.blocks p b then some (.page p) else place x

/-- Page `p` comes to bucket `b`, with all its blocks free. -/
structure AddsPage (s s' : State ε) (p b : Nat) : Prop where
  start : s'.pagesStart = s.pagesStart
  owner : s'.owner = Function.update s.owner p (some b)
  memory : s'.memory = bucketInitializePage s.memory b (s.addr p)
  live : s'.live = s.live
  metadata : s'.metadata = Function.update s.metadata p ⟨some (s.addr p), 0⟩
  cache : ∀ c i, (s'.buckets c).at i = (s.buckets c).at i
  hands : SameHands s s'
  linked : ∀ a c x inuse next, s'.pcs a = .linked c x inuse next → s.pcs a = .linked c x inuse next

omit [DecidableEq ε] in
theorem AddsPage.head_other (hr : AddsPage s s' p b) (hR : R ≠ .page p) : s'.head R = s.head R := by
  cases R with
  | page q =>
      have hq : q ≠ p := fun heq => hR (by rw [heq])
      rw [State.head_page, State.head_page, hr.owner, hr.metadata, Function.update_of_ne hq, Function.update_of_ne hq]
  | cache c i => exact congrArg CpuBucket.freelist (hr.cache c i)
  | hand a => exact hr.hands.hand a
  | live | held a => rfl

omit [DecidableEq ε] in
theorem AddsPage.head_self (hr : AddsPage s s' p b) : s'.head (.page p) = some (s.addr p) := by
  rw [State.head_page, hr.owner, hr.metadata, Function.update_self, Function.update_self]
  rfl

omit [DecidableEq ε] in
theorem Blocks.addPage (h : Blocks plat s place) (hnone : s.owner p = none) (hb : b < slabBuckets)
    (hr : AddsPage s s' p b) : Blocks plat s' (withPage s place p b) := by
  have hsame : ∀ {y q c}, s.IsBlock y q c → s'.IsBlock y q c := by
    intro y q c hy
    refine hy.congr hr.start ?_
    rw [hr.owner, Function.update_of_ne]
    rintro rfl
    exact Option.some_ne_none c (hy.1.symm.trans hnone)
  -- blocks that are somewhere are not in this page
  have hout : ∀ {y R}, place y = some R → y ∉ s.blocks p b ∧ s'.memory y = s.memory y := by
    intro y R hy
    have hfits := h.fits y R hy
    refine ⟨fun hin => hfits.owned hin hb hnone, ?_⟩
    obtain ⟨q, c, hblock⟩ := hfits.isBlock
    rw [hr.memory]
    refine bucketInitializePage_other s hb ?_
    by_contra hcon
    obtain rfl := addr_unique hblock.in_page (q := p) (by omega)
    exact Option.some_ne_none c (hblock.1.symm.trans hnone)
  have hplace : ∀ {y R}, R ≠ .page p → (withPage s place p b y = some R ↔ place y = some R) := by
    intro y R hR
    unfold withPage
    split
    · next hin => exact iff_of_false (fun heq => hR (Option.some.inj heq).symm) fun hy => (hout hy).1 hin
    · exact Iff.rfl
  have hself : ∀ y, withPage s place p b y = some (.page p) ↔ y ∈ s.blocks p b := by
    intro y
    unfold withPage
    split
    · next hin => exact iff_of_true rfl hin
    · next hin =>
        refine iff_of_false (fun hy => ?_) hin
        obtain ⟨c, hblock⟩ := h.fits y _ hy
        exact Option.some_ne_none c (hblock.1.symm.trans hnone)
  have hchain : ∀ {R l}, R ≠ .page p → (SList.Chain s'.memory (withPage s place p b) R (s'.head R) l ↔
      SList.Chain s.memory place R (s.head R) l) := by
    intro R l hR
    rw [hr.head_other hR]
    exact ⟨fun hl => hl.frame (fun y hy => ((hout ((hplace hR).mp hy)).2).symm) fun _ => (hplace hR).symm,
      fun hl => hl.frame (fun y hy => (hout hy).2) fun _ => hplace hR⟩
  have hpage : SList.Chain s'.memory (withPage s place p b) (.page p) (s'.head (.page p)) (s.blocks p b) := by
    rw [hr.head_self, hr.memory]
    exact ⟨isSList_bucketInitializePage s hb, nodup_blocks, fun y => (hself y).symm⟩
  refine ⟨fun R hR => ?_, fun y R hy => ?_, fun y size hy => ?_, fun a y hy => ?_, fun a c y inuse next hy => ?_,
    fun y q c hy => ?_, fun q c l hq hl => ?_⟩
  · by_cases hRp : R = .page p
    · rw [hRp]
      exact ⟨_, hpage⟩
    · obtain ⟨l, hl⟩ := h.chains R hR
      exact ⟨l, (hchain hRp).mpr hl⟩
  · by_cases hRp : R = .page p
    · rw [hRp] at hy ⊢
      refine ⟨b, ?_, hb, ?_⟩
      · rw [hr.owner, Function.update_self]
      · obtain ⟨i, hi, rfl⟩ := mem_blocks.mp ((hself y).mp hy)
        refine ⟨i, hi, ?_⟩
        unfold State.addr
        rw [hr.start]
    · exact (h.fits y R ((hplace hRp).mp hy)).mono hsame (fun c i _ => by rw [hr.cache]) (fun a _ => hr.hands.handPage a)
        (fun _ => by rw [hr.live]) fun a _ => ⟨hr.hands.held a, hr.hands.heldBucket a⟩
  · rw [hr.live] at hy
    obtain ⟨hat, hsize⟩ := h.live y size hy
    exact ⟨(hplace (by simp)).mpr hat, hsize⟩
  · rw [hr.hands.held] at hy
    exact (hplace (by simp)).mpr (h.held a y hy)
  · have hbefore := hr.linked a c y inuse next hy
    have hat := h.held a y (by rw [hbefore]; rfl)
    rw [(hout hat).2]
    exact h.linked a c y inuse next hbefore
  · unfold withPage
    split
    · exact Option.some_ne_none _
    · next hin =>
        have hqp : q ≠ p := by
          rintro rfl
          obtain ⟨hown, -, hindex⟩ := hy
          rw [hr.owner, Function.update_self] at hown
          obtain rfl := Option.some.inj hown
          refine hin (mem_blocks.mpr ?_)
          unfold State.addr at hindex ⊢
          rw [hr.start] at hindex
          exact hindex
        refine h.complete y q c (hy.congr hr.start.symm ?_)
        rw [hr.owner, Function.update_of_ne hqp]
  · by_cases hqp : q = p
    · subst hqp
      rw [hr.owner, Function.update_self] at hq
      obtain rfl := Option.some.inj hq
      obtain rfl := hl.list.unique hpage.list
      rw [hr.metadata, Function.update_self, length_blocks, Nat.zero_add]
    · rw [hr.owner, Function.update_of_ne hqp] at hq
      rw [hr.metadata, Function.update_of_ne hqp]
      exact h.count q c l hq ((hchain (by simpa using hqp)).mp hl)

/-- Page `p` leaves its bucket. -/
structure DropsPage (s s' : State ε) (p : Nat) : Prop where
  start : s'.pagesStart = s.pagesStart
  owner : s'.owner = Function.update s.owner p none
  memory : s'.memory = s.memory
  live : s'.live = s.live
  metadata : s'.metadata = s.metadata
  cache : ∀ c i, (s'.buckets c).at i = (s.buckets c).at i
  hands : SameHands s s'
  linked : ∀ a c x inuse next, s'.pcs a = .linked c x inuse next → s.pcs a = .linked c x inuse next

omit [DecidableEq ε] in
theorem DropsPage.head_other (hr : DropsPage s s' p) (hR : R ≠ .page p) : s'.head R = s.head R := by
  cases R with
  | page q =>
      have hq : q ≠ p := fun heq => hR (by rw [heq])
      rw [State.head_page, State.head_page, hr.owner, hr.metadata, Function.update_of_ne hq]
  | cache c i => exact congrArg CpuBucket.freelist (hr.cache c i)
  | hand a => exact hr.hands.hand a
  | live | held a => rfl

omit [DecidableEq ε] in
/-- All blocks of a page that is not in use are in its list. -/
theorem Blocks.all_free (h : Blocks plat s place) (hown : s.owner p = some b) (hfree : (s.metadata p).inuseChunks = 0)
    (hx : s.IsBlock x p b) : place x = some (.page p) := by
  obtain ⟨l, hl⟩ := h.chains (.page p) trivial
  have hcount := h.count p b l hown hl
  rw [hfree, Nat.zero_add] at hcount
  refine (hl.mem x).mp ((length_le_of_blocks hl.nodup fun y hy => ?_).2 hcount x hx)
  obtain ⟨c, hblock⟩ := h.fits y _ ((hl.mem y).mp hy)
  obtain rfl := Option.some.inj (hown.symm.trans hblock.1)
  exact hblock

theorem Blocks.dropPage (h : Blocks plat s place) (hown : s.owner p = some b)
    (hfree : (s.metadata p).inuseChunks = 0) (hr : DropsPage s s' p) :
    Blocks plat s' (moveAll place (.page p) none) := by
  have hplace : ∀ {y R}, R ≠ .page p → (moveAll place (.page p) none y = some R ↔ place y = some R) :=
    fun hR => moveAll_other hR (Ne.symm (Option.some_ne_none _))
  have hchain : ∀ {R l}, R ≠ .page p → (SList.Chain s'.memory (moveAll place (.page p) none) R (s'.head R) l ↔
      SList.Chain s.memory place R (s.head R) l) := by
    intro R l hR
    rw [hr.head_other hR, hr.memory]
    exact ⟨fun hl => hl.frame (fun _ _ => rfl) fun _ => (hplace hR).symm,
      fun hl => hl.frame (fun _ _ => rfl) fun _ => hplace hR⟩
  have hgone : ∀ y, moveAll place (.page p) none y ≠ some (.page p) := by
    intro y hy
    unfold moveAll at hy
    split at hy
    · cases hy
    · next hne => exact hne hy
  have howner : ∀ {q c}, s'.owner q = some c → q ≠ p ∧ s.owner q = some c := by
    intro q c hq
    rw [hr.owner, Function.update_apply] at hq
    split at hq
    · cases hq
    · next hne => exact ⟨hne, hq⟩
  refine ⟨fun R hR => ?_, fun y R hy => ?_, fun y size hy => ?_, fun a y hy => ?_, fun a c y inuse next hy => ?_,
    fun y q c hy => ?_, fun q c l hq hl => ?_⟩
  · by_cases hRp : R = .page p
    · subst hRp
      refine ⟨[], ?_, List.nodup_nil, fun y => iff_of_false List.not_mem_nil (hgone y)⟩
      rw [State.head_page, hr.owner, Function.update_self]
      rfl
    · obtain ⟨l, hl⟩ := h.chains R hR
      exact ⟨l, (hchain hRp).mpr hl⟩
  · have hRp : R ≠ .page p := by
      rintro rfl
      exact hgone y hy
    have hbefore := (hplace hRp).mp hy
    have hstays : ∀ {q c}, s.IsBlock y q c → s'.IsBlock y q c := by
      intro q c hblock
      refine hblock.congr hr.start ?_
      rw [hr.owner, Function.update_of_ne]
      rintro rfl
      obtain rfl := Option.some.inj (hown.symm.trans hblock.1)
      have hin := h.all_free hown hfree hblock
      exact hRp (Option.some.inj (hbefore.symm.trans hin))
    exact (h.fits y R hbefore).mono hstays (fun c i _ => by rw [hr.cache]) (fun a _ => hr.hands.handPage a)
      (fun _ => by rw [hr.live]) fun a _ => ⟨hr.hands.held a, hr.hands.heldBucket a⟩
  · rw [hr.live] at hy
    obtain ⟨hat, hsize⟩ := h.live y size hy
    exact ⟨(hplace (by simp)).mpr hat, hsize⟩
  · rw [hr.hands.held] at hy
    exact (hplace (by simp)).mpr (h.held a y hy)
  · rw [hr.memory]
    exact h.linked a c y inuse next (hr.linked a c y inuse next hy)
  · obtain ⟨hqp, hq⟩ := howner hy.1
    have hblock : s.IsBlock y q c := hy.congr hr.start.symm (hq.trans hy.1.symm)
    unfold moveAll
    split
    · next hin =>
        obtain ⟨c', hblock'⟩ := h.fits y _ hin
        exact absurd (hblock.unique hblock').1 hqp
    · exact h.complete y q c hblock
  · obtain ⟨hqp, hq⟩ := howner hq
    rw [hr.metadata]
    exact h.count q c l hq ((hchain (by simpa using hqp)).mp hl)

end Slab

end Nosv
