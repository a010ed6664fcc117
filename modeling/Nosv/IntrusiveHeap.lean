import Mathlib.Algebra.Group.Nat.Defs
import Mathlib.Data.Nat.Log
import Nosv.Lib.LevelHeap
import Nosv.Lib.Run

/-!
# The intrusive heap

`generic/heap.h` with its nodes in memory: every node has a link to its
parent and one to each of its children. The code has a branch for the left
child and one for the right child wherever it exchanges two nodes; here the
side is a parameter.

A function returns `none` where it follows a link that is `NULL`, where an
assertion fails, and where a loop has no fuel left. There are never so many
nodes that `size` would wrap around.
-/

namespace Nosv

/-- The links to the children, `left` and `right` -/
inductive Side where
  | left
  | right
  deriving DecidableEq, Repr

namespace Side

def other : Side → Side
  | left => right
  | right => left

/-- The last bit in the position of such a child -/
def bit : Side → Nat
  | left => 0
  | right => 1

end Side

/-- `heap_head_t`, and the links of all nodes -/
structure IntrusiveHeap (α : Type*) where
  root : Option α
  size : Nat
  parent : α → Option α
  child : Side → α → Option α

namespace IntrusiveHeap

open LevelHeap

variable {α : Type*} [DecidableEq α] (cmp : α → α → Int)

def init (parent : α → Option α) (child : Side → α → Option α) : IntrusiveHeap α := ⟨none, 0, parent, child⟩

/-- `x->parent = p`, if there is a node `x` -/
def setParent (m : IntrusiveHeap α) (x p : Option α) : IntrusiveHeap α :=
  match x with
  | some x => { m with parent := Function.update m.parent x p }
  | none => m

def setChild (m : IntrusiveHeap α) (s : Side) (x : α) (c : Option α) : IntrusiveHeap α :=
  { m with child := Function.update m.child s (Function.update (m.child s) x c) }

/-- `heap_swap` of a child of `x` and one of `y` -/
def swapChild (m : IntrusiveHeap α) (s : Side) (x y : α) : IntrusiveHeap α :=
  (m.setChild s x (m.child s y)).setChild s y (m.child s x)

/-- The node `parent` gets `new` for its child `old`. -/
def replaceChild (m : IntrusiveHeap α) (parent : Option α) (old new : α) : IntrusiveHeap α :=
  match parent with
  | some parent =>
      if m.child .left parent = some old then m.setChild .left parent (some new)
      else m.setChild .right parent (some new)
  | none => m

/-! ## Down -/

/-- The greatest one of a node and its children -/
def largest (m : IntrusiveHeap α) (a : α) : α :=
  let largest :=
    match m.child .left a with
    | some left => if 0 < cmp left a then left else a
    | none => a
  match m.child .right a with
  | some right => if 0 < cmp right largest then right else largest
  | none => largest

/-- Node `a` gets the children of its child `b` on side `s`, and becomes the
child of `b`, which gets the other child of `a`. -/
def exchangeChildren (m : IntrusiveHeap α) (s : Side) (a b : α) : IntrusiveHeap α :=
  let m := m.setChild s a (m.child s b)
  let m := m.setParent (m.child s a) (some a)
  let m := m.setChild s b (some a)
  m.swapChild s.other a b

/-- The exchange of `a` and its child `largest` in `heap_max_heapify`; `head`
says whether it was given the head of the heap. -/
def exchangeDown (m : IntrusiveHeap α) (head : Bool) (a largest : α) : IntrusiveHeap α :=
  let m := m.setParent (some largest) (m.parent a)
  let m := m.replaceChild (m.parent a) a largest
  let m := m.setParent (some a) (some largest)
  let m := if head then { m with root := some largest } else m
  let s := if m.child .left a = some largest then Side.left else Side.right
  let m := m.exchangeChildren s a largest
  let m := m.setParent (m.child s.other a) (some a)
  m.setParent (m.child s.other largest) (some largest)

def heapMaxHeapify : Nat → IntrusiveHeap α → Bool → α → Option (IntrusiveHeap α)
  | 0, _, _, _ => none
  | fuel + 1, m, head, a =>
      let largest := m.largest cmp a
      if largest ≠ a then heapMaxHeapify fuel (m.exchangeDown head a largest) false a else some m

/-! ## Finding a node -/

/-- The side on which the path to a position goes on, and the position in the
tree below. -/
def heapGetMove (node : Nat) : Side × Nat :=
  let base := 2 ^ Nat.log2 node
  let aux := node - base / 2
  if aux < base then (.left, aux) else (.right, aux - base / 2)

/-- The loop of `heap_get` -/
def heapGetFrom (m : IntrusiveHeap α) : Nat → Nat → α → Option α
  | 0, _, _ => none
  | fuel + 1, node, current =>
      if node ≠ 1 then
        let (s, node) := heapGetMove node
        (m.child s current).bind (heapGetFrom m fuel node)
      else some current

def heapGet (m : IntrusiveHeap α) (node : Nat) : Option α := m.root.bind (m.heapGetFrom node node)

/-! ## The operations -/

/-- The side of the last one of `size` nodes -/
def lastSide (size : Nat) : Side := if size % 2 = 1 then .right else .left

/-- `change`, the last node, takes the place of its parent `max` in
`heap_pop_max`. -/
def adoptSibling (m : IntrusiveHeap α) (size : Nat) (change max : α) : IntrusiveHeap α :=
  let s := (lastSide size).other
  let m := m.setChild s change (m.child s max)
  let m := m.setParent (m.child s change) (some change)
  { m.setParent (some change) none with root := some change }

/-- `change`, the last node, takes the place of `max` from elsewhere. -/
def adoptChildren (m : IntrusiveHeap α) (size : Nat) (parent change max : α) : Option (IntrusiveHeap α) :=
  let m := m.setChild (lastSide size) parent none
  if m.child .left change = none ∧ m.child .right change = none then
    let m := m.setChild .left change (m.child .left max)
    let m := m.setParent (m.child .left change) (some change)
    let m := m.setChild .right change (m.child .right max)
    let m := m.setParent (m.child .right change) (some change)
    some { m.setParent (some change) none with root := some change }
  else none

def heapPopMax (m : IntrusiveHeap α) : Option (Option α × IntrusiveHeap α) :=
  match m.root with
  | none => some (none, m)
  | some max =>
      (m.heapGet m.size).bind fun change =>
        let size := m.size
        let m := { m with size := m.size - 1 }
        match m.parent change with
        | none => some (some max, { m with root := none })
        | some parent =>
            let moved := if parent = max then some (m.adoptSibling size change max)
              else m.adoptChildren size parent change max
            moved.bind fun m => (heapMaxHeapify cmp (size + 1) m true change).map fun m => (some max, m)

/-- The exchange of `node` and its parent in `heap_insert` -/
def exchangeUp (m : IntrusiveHeap α) (node parent : α) : IntrusiveHeap α :=
  let m := m.setParent (some node) (m.parent parent)
  let m := m.setParent (some parent) (some node)
  let m := m.replaceChild (m.parent node) parent node
  let s := if m.child .left parent = some node then Side.left else Side.right
  let m := m.exchangeChildren s parent node
  let m := m.setParent (m.child s.other node) (some node)
  m.setParent (m.child s.other parent) (some parent)

/-- The loop of `heap_insert`, and what follows it -/
def bubbleUp : Nat → IntrusiveHeap α → α → Option α → Option (IntrusiveHeap α)
  | 0, _, _, _ => none
  | _ + 1, m, node, none => some { m with root := some node }
  | fuel + 1, m, node, some parent =>
      if 0 < cmp node parent then
        let m := m.exchangeUp node parent
        bubbleUp fuel m node (m.parent node)
      else some m

def heapInsert (m : IntrusiveHeap α) (node : α) : Option (IntrusiveHeap α) :=
  let m := ((m.setChild .left node none).setChild .right node none).setParent (some node) none
  let m := { m with size := m.size + 1 }
  match m.root with
  | none => some { m with root := some node }
  | some _ =>
      (m.heapGet (m.size / 2)).bind fun parent =>
        let s := lastSide m.size
        if m.child s parent = none then
          let m := m.setChild s parent (some node)
          let m := m.setParent (some node) (some parent)
          bubbleUp cmp (m.size + 1) m node (some parent)
        else none

/-! ## Links after a write -/

variable {cmp} {m m' : IntrusiveHeap α} {s t : Side} {x y z p c : α} {o : Option α}

theorem other_ne : s.other ≠ s := by cases s <;> decide

theorem setParent_parent {q : Option α} : (m.setParent o q).parent y = if o = some y then q else m.parent y := by
  cases o with
  | none => rfl
  | some x =>
      simp only [setParent, Function.update_apply, Option.some.injEq]
      exact if_congr eq_comm rfl rfl

@[simp] theorem setParent_child {q : Option α} : (m.setParent o q).child = m.child := by cases o <;> rfl

@[simp] theorem setParent_root {q : Option α} : (m.setParent o q).root = m.root := by cases o <;> rfl

@[simp] theorem setParent_size {q : Option α} : (m.setParent o q).size = m.size := by cases o <;> rfl

theorem setChild_child : (m.setChild s x o).child t y = if t = s ∧ y = x then o else m.child t y := by
  rw [setChild]
  by_cases ht : t = s
  · subst ht
    simp [Function.update_apply]
  · simp [ht]

@[simp] theorem setChild_parent : (m.setChild s x o).parent = m.parent := rfl

@[simp] theorem setChild_root : (m.setChild s x o).root = m.root := rfl

@[simp] theorem setChild_size : (m.setChild s x o).size = m.size := rfl

theorem swapChild_child : (m.swapChild s x y).child t z
    = if t = s ∧ z = y then m.child s x else if t = s ∧ z = x then m.child s y else m.child t z := by
  rw [swapChild, setChild_child, setChild_child]

@[simp] theorem swapChild_parent : (m.swapChild s x y).parent = m.parent := rfl

@[simp] theorem swapChild_root : (m.swapChild s x y).root = m.root := rfl

@[simp] theorem swapChild_size : (m.swapChild s x y).size = m.size := rfl

theorem replaceChild_child : (m.replaceChild o x y).child t z
    = if o = some z ∧ t = (if m.child .left z = some x then .left else .right) then some y else m.child t z := by
  cases o with
  | none => simp [replaceChild]
  | some q =>
      rw [replaceChild]
      by_cases hz : z = q
      · subst hz
        split <;> simp [setChild_child]
      · split <;> simp [setChild_child, hz, Ne.symm hz]

@[simp] theorem replaceChild_parent : (m.replaceChild o x y).parent = m.parent := by
  cases o with
  | none => rfl
  | some q =>
      rw [replaceChild]
      split <;> rfl

@[simp] theorem replaceChild_root : (m.replaceChild o x y).root = m.root := by
  cases o with
  | none => rfl
  | some q =>
      rw [replaceChild]
      split <;> rfl

@[simp] theorem replaceChild_size : (m.replaceChild o x y).size = m.size := by
  cases o with
  | none => rfl
  | some q =>
      rw [replaceChild]
      split <;> rfl

/-! ## An exchange -/

/-- Node `c` is the child of `p` on side `s`. -/
structure Adjacent (m : IntrusiveHeap α) (s : Side) (p c : α) : Prop where
  ne : p ≠ c
  side : (if m.child .left p = some c then Side.left else Side.right) = s
  parent_ne : m.parent p ≠ some p
  parent_ne_child : m.parent p ≠ some c
  disjoint : ∀ x, m.child s.other p = some x → m.child s.other c ≠ some x

/-- The links of `m'` are those of `m` after `p` and its child `c` have
changed places. -/
structure Exchanged (m m' : IntrusiveHeap α) (s : Side) (p c : α) : Prop where
  child : ∀ t x, m'.child t x =
    if x = c then (if t = s then some p else m.child t p)
    else if x = p then m.child t c
    else if m.parent p = some x ∧ t = (if m.child .left x = some p then .left else .right) then some c
    else m.child t x
  parent : ∀ x, m'.parent x =
    if m.child s.other p = some x then some c
    else if m.child s.other c = some x ∨ m.child s c = some x then some p
    else if x = p then some c
    else if x = c then m.parent p
    else m.parent x
  size : m'.size = m.size

theorem exchangeChildren_child (hne : p ≠ c) : (m.exchangeChildren s p c).child t x =
    if x = c then (if t = s then some p else m.child t p) else if x = p then m.child t c else m.child t x := by
  have hother : s.other ≠ s := other_ne
  have htwo : ∀ t : Side, t = s ∨ t = s.other := by intro t; cases s <;> cases t <;> simp [Side.other]
  rw [exchangeChildren]
  simp only [swapChild_child, setChild_child, setParent_child, hne, hother, Ne.symm hne, and_true, and_false,
    if_true, if_false]
  rcases htwo t with rfl | rfl
  · by_cases hc : x = c
    · simp [hc, Ne.symm hother, Ne.symm hne]
    · by_cases hp : x = p <;> simp [hc, hp, Ne.symm hother]
  · by_cases hc : x = c
    · simp [hc, hother]
    · by_cases hp : x = p <;> simp [hc, hp, hother]

theorem exchangeChildren_parent :
    (m.exchangeChildren s p c).parent x = if m.child s c = some x then some p else m.parent x := by
  rw [exchangeChildren]
  simp only [swapChild_parent, setChild_parent, setParent_parent, setChild_child, and_self, if_true]

/-- The links of `m'` are those of `m` after the parent of `p`, and the links
to the parent in `p` and its child `c`, have been written. -/
structure Relinked (m m' : IntrusiveHeap α) (p c : α) : Prop where
  child : ∀ t x, m'.child t x =
    if m.parent p = some x ∧ t = (if m.child .left x = some p then .left else .right) then some c else m.child t x
  parent : ∀ x, m'.parent x = if x = p then some c else if x = c then m.parent p else m.parent x
  size : m'.size = m.size

/-- What the children of the two nodes are, when only the links to the
parent of the children on side `s.other` remain to be written. -/
theorem Adjacent.exchangeChildren (h : Adjacent m s p c) (h₁ : Relinked m m' p c) :
    (if m'.child .left p = some c then Side.left else Side.right) = s
      ∧ (∀ t x, (m'.exchangeChildren s p c).child t x =
        if x = c then (if t = s then some p else m.child t p)
        else if x = p then m.child t c
        else if m.parent p = some x ∧ t = (if m.child .left x = some p then .left else .right) then some c
        else m.child t x)
      ∧ (∀ x, (m'.exchangeChildren s p c).parent x =
        if m.child s c = some x then some p else if x = p then some c else if x = c then m.parent p else m.parent x)
      ∧ (m'.exchangeChildren s p c).child s.other p = m.child s.other c
      ∧ (m'.exchangeChildren s p c).child s.other c = m.child s.other p := by
  have hp : ∀ t, m'.child t p = m.child t p := fun t => by rw [h₁.child, if_neg fun h' => h.parent_ne h'.1]
  have hc : ∀ t, m'.child t c = m.child t c := fun t => by rw [h₁.child, if_neg fun h' => h.parent_ne_child h'.1]
  refine ⟨by rw [hp, h.side], fun t x => ?_, fun x => ?_, ?_, ?_⟩
  · rw [exchangeChildren_child h.ne, hp, hc, h₁.child]
  · rw [exchangeChildren_parent, hc, h₁.parent]
  · rw [exchangeChildren_child h.ne, if_neg h.ne, if_pos rfl, hc]
  · rw [exchangeChildren_child h.ne, if_pos rfl, if_neg other_ne, hp]

theorem exchangeDown_exchanged (h : Adjacent m s p c) (head : Bool) :
    Exchanged m (m.exchangeDown head p c) s p c := by
  obtain ⟨m₁, hm₁⟩ : ∃ m₁, m₁ = if head then
      { ((m.setParent (some c) (m.parent p)).replaceChild
        ((m.setParent (some c) (m.parent p)).parent p) p c).setParent (some p) (some c) with root := some c }
    else ((m.setParent (some c) (m.parent p)).replaceChild
      ((m.setParent (some c) (m.parent p)).parent p) p c).setParent (some p) (some c) := ⟨_, rfl⟩
  have hlink : (m.setParent (some c) (m.parent p)).parent p = m.parent p := by
    rw [setParent_parent, if_neg (by simpa using Ne.symm h.ne)]
  have hrelinked : Relinked m m₁ p c := by
    rw [hlink] at hm₁
    have hlinks : m₁.child = ((m.setParent (some c) (m.parent p)).replaceChild (m.parent p) p c).child
        ∧ m₁.parent = (((m.setParent (some c) (m.parent p)).replaceChild (m.parent p) p c).setParent
          (some p) (some c)).parent ∧ m₁.size = m.size := by
      rw [hm₁]
      cases head <;> simp
    obtain ⟨hchild, hparent, hsize⟩ := hlinks
    refine ⟨fun t x => ?_, fun x => ?_, hsize⟩
    · rw [hchild, replaceChild_child, setParent_child]
    · rw [hparent, setParent_parent, replaceChild_parent, setParent_parent]
      simp only [Option.some.injEq, eq_comm]
  obtain ⟨hside, hchild, hparent, hlast, hsibling⟩ := h.exchangeChildren hrelinked
  have hexchange : m.exchangeDown head p c = ((m₁.exchangeChildren s p c).setParent
      ((m₁.exchangeChildren s p c).child s.other p) (some p)).setParent
        ((m₁.exchangeChildren s p c).child s.other c) (some c) := by
    rw [exchangeDown, ← hm₁, hside, setParent_child]
  rw [hexchange, hlast, hsibling]
  refine ⟨fun t x => ?_, fun x => ?_, ?_⟩
  · rw [setParent_child, setParent_child, hchild]
  · rw [setParent_parent, setParent_parent, hparent]
    by_cases hx : m.child s.other c = some x <;> simp [hx]
  · simp [IntrusiveHeap.exchangeChildren, hrelinked.size]

theorem exchangeUp_exchanged (h : Adjacent m s p c) : Exchanged m (m.exchangeUp c p) s p c := by
  obtain ⟨m₁, hm₁⟩ : ∃ m₁, m₁ = ((m.setParent (some c) (m.parent p)).setParent (some p) (some c)).replaceChild
    (((m.setParent (some c) (m.parent p)).setParent (some p) (some c)).parent c) p c := ⟨_, rfl⟩
  have hrelinked : Relinked m m₁ p c := by
    have hlink : ((m.setParent (some c) (m.parent p)).setParent (some p) (some c)).parent c = m.parent p := by
      rw [setParent_parent, if_neg (by simpa using h.ne), setParent_parent, if_pos rfl]
    rw [hm₁, hlink]
    refine ⟨fun t x => ?_, fun x => ?_, by simp⟩
    · rw [replaceChild_child, setParent_child, setParent_child]
    · rw [replaceChild_parent, setParent_parent, setParent_parent]
      simp only [Option.some.injEq, eq_comm]
  obtain ⟨hside, hchild, hparent, hlast, hsibling⟩ := h.exchangeChildren hrelinked
  have hexchange : m.exchangeUp c p = ((m₁.exchangeChildren s p c).setParent
      ((m₁.exchangeChildren s p c).child s.other c) (some c)).setParent
        ((m₁.exchangeChildren s p c).child s.other p) (some p) := by
    rw [exchangeUp, ← hm₁, hside, setParent_child]
  rw [hexchange, hlast, hsibling]
  refine ⟨fun t x => ?_, fun x => ?_, ?_⟩
  · rw [setParent_child, setParent_child, hchild]
  · rw [setParent_parent, setParent_parent, hparent]
    by_cases hx : m.child s.other p = some x
    · simp [hx, h.disjoint x hx]
    · by_cases hx' : m.child s.other c = some x <;> simp [hx, hx']
  · simp [IntrusiveHeap.exchangeChildren, hrelinked.size]

/-! ## The tree in memory -/

/-- The links of the nodes `a 1` to `a n` are those of the tree in level
order. -/
structure Links (m : IntrusiveHeap α) (a : Nat → α) (n : Nat) : Prop where
  nodup : (contents a n).Nodup
  child : ∀ s i, 1 ≤ i → i ≤ n → m.child s (a i) = nodeAt a n (2 * i + s.bit)
  parent : ∀ i, 1 ≤ i → i ≤ n → m.parent (a i) = nodeAt a n (i / 2)

variable {a : Nat → α} {n i j k : Nat}

theorem bit_le (s : Side) : s.bit ≤ 1 := by cases s <;> decide

theorem bit_other (s : Side) : s.other.bit = 1 - s.bit := by cases s <;> rfl

theorem bit_inj (h : s.bit = t.bit) : s = t := by
  cases s <;> cases t <;> first | rfl | exact absurd h (by decide)

theorem eq_other_of_ne (h : t ≠ s) : t = s.other := by
  cases s <;> cases t <;> first | rfl | exact absurd rfl h

omit [DecidableEq α] in
theorem Links.child_iff (h : m.Links a n) (hk : 1 ≤ k) (hkn : k ≤ n) (hj : 1 ≤ j) (hjn : j ≤ n) :
    m.child t (a k) = some (a j) ↔ 2 * k + t.bit = j := by
  rw [h.child t k hk hkn]
  exact nodeAt_eq_iff h.nodup hj hjn

omit [DecidableEq α] in
theorem Links.parent_iff (h : m.Links a n) (hk : 1 ≤ k) (hkn : k ≤ n) (hj : 1 ≤ j) (hjn : j ≤ n) :
    m.parent (a k) = some (a j) ↔ k / 2 = j := by
  rw [h.parent k hk hkn]
  exact nodeAt_eq_iff h.nodup hj hjn

omit [DecidableEq α] in
theorem Links.ne (h : m.Links a n) (hk : 1 ≤ k) (hkn : k ≤ n) (hj : 1 ≤ j) (hjn : j ≤ n) (hne : k ≠ j) : a k ≠ a j :=
  fun heq => hne (eq_of_nodup h.nodup hk hkn hj hjn heq)

/-- The side of a child is found by looking at the left child. -/
theorem Links.side_iff (h : m.Links a n) (hk : 1 ≤ k) (hj : j ≤ n) (hparent : j / 2 = k) :
    t = (if m.child .left (a k) = some (a j) then Side.left else Side.right) ↔ 2 * k + t.bit = j := by
  have hleft := h.child_iff (t := .left) hk (by omega) (by omega) hj
  by_cases heven : 2 * k = j
  · rw [if_pos (hleft.mpr heven)]
    cases t <;> simp [Side.bit, heven]
  · rw [if_neg fun heq => heven (hleft.mp heq)]
    cases t with
    | left => simp [Side.bit, heven]
    | right =>
        simp only [Side.bit, true_iff]
        omega

theorem Links.adjacent (h : m.Links a n) (hi : 1 ≤ i) (hc : 2 * i + s.bit ≤ n) :
    Adjacent m s (a i) (a (2 * i + s.bit)) := by
  have hbit := bit_le s
  have hother := bit_other s
  refine ⟨h.ne hi (by omega) (by omega) hc (by omega), ?_, ?_, ?_, fun x hx hx' => ?_⟩
  · exact ((h.side_iff hi hc (by omega)).mpr rfl).symm
  · rw [Ne, h.parent_iff hi (by omega) hi (by omega)]
    omega
  · rw [Ne, h.parent_iff hi (by omega) (by omega) hc]
    omega
  · -- a node has one parent
    rw [h.child _ _ hi (by omega), nodeAt_eq_some_iff] at hx
    obtain ⟨⟨hpos, hle⟩, rfl⟩ := hx
    rw [h.child_iff (by omega) hc hpos hle] at hx'
    omega

/-- The tree after an exchange is the one with the two nodes exchanged. -/
theorem Links.exchange (h : m.Links a n) (hi : 1 ≤ i) (hc : 2 * i + s.bit ≤ n)
    (he : Exchanged m m' s (a i) (a (2 * i + s.bit))) : m'.Links (swapAt a i (2 * i + s.bit)) n := by
  have hbit := bit_le s
  have hother := bit_other s
  obtain ⟨c, hceq⟩ : ∃ c, c = 2 * i + s.bit := ⟨_, rfl⟩
  rw [← hceq] at he hc ⊢
  have hin : i ≤ n := by omega
  have hcpos : 1 ≤ c := by omega
  refine ⟨by rw [contents_swapAt hi hin hcpos hc]; exact h.nodup, fun t j hj hjn => ?_, fun j hj hjn => ?_⟩
  · have htbit := bit_le t
    rw [he.child]
    by_cases hji : j = i
    · subst hji
      rw [swapAt_left, if_pos rfl]
      by_cases ht : t = s
      · subst ht
        rw [if_pos rfl, ← hceq, nodeAt_of_le hcpos hc, swapAt_right]
      · have hne : 2 * j + t.bit ≠ c := fun heq => ht (bit_inj (by omega))
        rw [if_neg ht, h.child t j hj hjn, nodeAt_swapAt_of_ne (by omega) hne]
    · by_cases hjc : j = c
      · subst hjc
        rw [swapAt_right, if_neg (h.ne hi hin hj hjn (by omega)), if_pos rfl, h.child t j hj hjn,
          nodeAt_swapAt_of_ne (by omega) (by omega)]
      · rw [swapAt_of_ne hji hjc, if_neg (h.ne hj hjn hcpos hc hjc), if_neg (h.ne hj hjn hi hin hji)]
        by_cases hchild : 2 * j + t.bit = i
        · rw [if_pos ⟨(h.parent_iff hi hin hj hjn).mpr (by omega), (h.side_iff hj hin (by omega)).mpr hchild⟩, hchild,
            nodeAt_of_le hi hin, swapAt_left]
        · rw [if_neg, h.child t j hj hjn, nodeAt_swapAt_of_ne hchild (by omega)]
          rintro ⟨hparent, hside⟩
          exact hchild ((h.side_iff hj hin ((h.parent_iff hi hin hj hjn).mp hparent)).mp hside)
  · rw [he.parent]
    by_cases hji : j = i
    · subst hji
      rw [swapAt_left, if_neg, if_neg, if_neg (h.ne hcpos hc hj hjn (by omega)), if_pos rfl, h.parent j hj hjn,
        nodeAt_swapAt_of_ne (by omega) (by omega)]
      · rw [h.child_iff hcpos hc hcpos hc, h.child_iff hcpos hc hcpos hc]
        omega
      · rw [h.child_iff hj hjn hcpos hc]
        omega
    · by_cases hjc : j = c
      · subst hjc
        rw [swapAt_right, if_neg, if_neg, if_pos rfl, show j / 2 = i by omega, nodeAt_of_le hi hin, swapAt_left]
        · rw [h.child_iff hj hjn hi hin, h.child_iff hj hjn hi hin]
          omega
        · rw [h.child_iff hi hin hi hin]
          omega
      · rw [swapAt_of_ne hji hjc]
        have hside : m.child s.other (a i) = some (a j) ↔ 2 * i + s.other.bit = j := h.child_iff hi hin hj hjn
        have hbelow : m.child s.other (a c) = some (a j) ∨ m.child s (a c) = some (a j) ↔ j / 2 = c := by
          rw [h.child_iff hcpos hc hj hjn, h.child_iff hcpos hc hj hjn]
          omega
        by_cases hsibling : 2 * i + s.other.bit = j
        · rw [if_pos (hside.mpr hsibling), show j / 2 = i by omega, nodeAt_of_le hi hin, swapAt_left]
        · rw [if_neg fun heq => hsibling (hside.mp heq)]
          by_cases hjc' : j / 2 = c
          · rw [if_pos (hbelow.mpr hjc'), hjc', nodeAt_of_le hcpos hc, swapAt_right]
          · rw [if_neg fun hor => hjc' (hbelow.mp hor), if_neg (h.ne hj hjn hi hin hji), if_neg (h.ne hj hjn hcpos hc hjc),
              h.parent j hj hjn, nodeAt_swapAt_of_ne (by omega) hjc']

/-! ## Order -/

/-- `cmp` compares by a total preorder: `cmp x y ≤ 0` says that `x` is not
greater than `y`. -/
structure TotalPreorder (cmp : α → α → Int) : Prop where
  total : ∀ x y, cmp x y ≤ 0 ∨ cmp y x ≤ 0
  trans : ∀ x y z, cmp x y ≤ 0 → cmp y z ≤ 0 → cmp x z ≤ 0

omit [DecidableEq α] in
theorem TotalPreorder.le_of_greater (h : TotalPreorder cmp) (hxy : 0 < cmp x y) : cmp y x ≤ 0 :=
  (h.total x y).resolve_left (Int.not_le.mpr hxy)

omit [DecidableEq α] in
theorem TotalPreorder.refl (h : TotalPreorder cmp) (x : α) : cmp x x ≤ 0 := (h.total x x).elim id id

/-- The heap `m` is the tree of the nodes `a 1` to `a n`. -/
structure IsHeap (cmp : α → α → Int) (m : IntrusiveHeap α) (a : Nat → α) (n : Nat) : Prop where
  links : m.Links a n
  ordered : Ordered (fun x y => cmp x y ≤ 0) a n
  root : m.root = nodeAt a n 1
  size : m.size = n

omit [DecidableEq α] in
/-- The greatest one of a node and its children -/
theorem Links.largest_spec (h : m.Links a n) (hcmp : TotalPreorder cmp) (hi : 1 ≤ i) (hin : i ≤ n) :
    ∃ k, m.largest cmp (a i) = a k ∧ k ≤ n ∧ (k = i ∨ k / 2 = i) ∧ cmp (a i) (a k) ≤ 0
      ∧ ∀ j ≤ n, j / 2 = i → cmp (a j) (a k) ≤ 0 := by
  -- the node and its left child
  obtain ⟨l, hl, hln, hli, hle, hleft⟩ : ∃ l, (match m.child .left (a i) with
        | some left => if 0 < cmp left (a i) then left else a i
        | none => a i) = a l ∧ l ≤ n ∧ (l = i ∨ l / 2 = i) ∧ cmp (a i) (a l) ≤ 0
      ∧ (2 * i ≤ n → cmp (a (2 * i)) (a l) ≤ 0) := by
    rw [h.child .left i hi hin]
    by_cases hchild : 2 * i ≤ n
    · rw [show 2 * i + Side.left.bit = 2 * i from rfl, nodeAt_of_le (by omega) hchild]
      by_cases hgreater : 0 < cmp (a (2 * i)) (a i)
      · exact ⟨2 * i, if_pos hgreater, hchild, Or.inr (by omega), hcmp.le_of_greater hgreater, fun _ => hcmp.refl _⟩
      · exact ⟨i, if_neg hgreater, hin, Or.inl rfl, hcmp.refl _, fun _ => Int.not_lt.mp hgreater⟩
    · rw [show 2 * i + Side.left.bit = 2 * i from rfl, nodeAt_of_lt (by omega)]
      exact ⟨i, rfl, hin, Or.inl rfl, hcmp.refl _, fun h => absurd h hchild⟩
  rw [largest, hl, h.child .right i hi hin]
  by_cases hchild : 2 * i + 1 ≤ n
  · rw [show 2 * i + Side.right.bit = 2 * i + 1 from rfl, nodeAt_of_le (by omega) hchild]
    by_cases hgreater : 0 < cmp (a (2 * i + 1)) (a l)
    · have hle' := hcmp.le_of_greater hgreater
      refine ⟨2 * i + 1, if_pos hgreater, hchild, Or.inr (by omega), hcmp.trans _ _ _ hle hle', fun j hj heq => ?_⟩
      obtain rfl | rfl : j = 2 * i ∨ j = 2 * i + 1 := by omega
      · exact hcmp.trans _ _ _ (hleft hj) hle'
      · exact hcmp.refl _
    · refine ⟨l, if_neg hgreater, hln, hli, hle, fun j hj heq => ?_⟩
      obtain rfl | rfl : j = 2 * i ∨ j = 2 * i + 1 := by omega
      · exact hleft hj
      · exact Int.not_lt.mp hgreater
  · rw [show 2 * i + Side.right.bit = 2 * i + 1 from rfl, nodeAt_of_lt (by omega)]
    refine ⟨l, rfl, hln, hli, hle, fun j hj heq => ?_⟩
    obtain rfl : j = 2 * i := by omega
    exact hleft hj

theorem exchangeDown_root (head : Bool) : (m.exchangeDown head p c).root = if head then some c else m.root := by
  rw [exchangeDown, setParent_root, setParent_root, exchangeChildren, swapChild_root, setChild_root, setParent_root,
    setChild_root]
  cases head <;> simp

/-- The position of the last node, from its parent -/
theorem lastSide_bit (n : Nat) : 2 * (n / 2) + (lastSide n).bit = n := by
  unfold lastSide
  split <;> simp only [Side.bit] <;> omega

/-- `heap_max_heapify` lets a node float down to where it belongs. -/
theorem heapMaxHeapify_spec (hcmp : TotalPreorder cmp) : ∀ (fuel : Nat) (head : Bool) {m : IntrusiveHeap α}
    {a : Nat → α} {i : Nat}, m.Links a n → DownOrdered (fun x y => cmp x y ≤ 0) a n i → 1 ≤ i → i ≤ n → n < i + fuel →
      m.root = some (a 1) → m.size = n → (head = true ↔ i = 1) →
      ∃ m' a', heapMaxHeapify cmp fuel m head (a i) = some m' ∧ IsHeap cmp m' a' n ∧ contents a' n = contents a n
  | 0, _, _, _, _, _, _, _, hin, hfuel, _, _, _ => by omega
  | fuel + 1, head, m, a, i, h, hdown, hi, hin, hfuel, hroot, hsize, hhead => by
      obtain ⟨k, hk, hkn, hor, hle, hmax⟩ := h.largest_spec hcmp hi hin
      rw [heapMaxHeapify]
      rw [hk]
      by_cases hki : k = i
      · subst hki
        rw [if_neg (not_not_intro rfl)]
        refine ⟨m, a, rfl, ⟨h, hdown.ordered hmax, ?_, hsize⟩, rfl⟩
        rw [hroot, nodeAt_of_le (Nat.le_refl 1) (by omega)]
      · have hparent : k / 2 = i := hor.resolve_left hki
        have hlast : 2 * i + (lastSide k).bit = k := by rw [← hparent, lastSide_bit]
        rw [if_pos (h.ne (by omega) hkn hi hin hki)]
        have hexchanged := exchangeDown_exchanged (h.adjacent hi (by rw [hlast]; exact hkn)) head
        have hlinks := h.exchange hi (by rw [hlast]; exact hkn) hexchanged
        rw [hlast] at hexchanged hlinks
        have hroot' : (m.exchangeDown head (a i) (a k)).root = some (swapAt a i k 1) := by
          rw [exchangeDown_root]
          by_cases hone : i = 1
          · rw [if_pos (hhead.mpr hone), ← hone, swapAt_left]
          · rw [if_neg fun heq => hone (hhead.mp heq), hroot, swapAt_of_ne (by omega) (by omega)]
        obtain ⟨m', a', hm', hheap, hcontents⟩ := heapMaxHeapify_spec hcmp fuel false hlinks
          (hdown.swap hi hparent hkn hle hmax) (by omega) hkn (by omega) hroot' (hexchanged.size.trans hsize)
          (by simp; omega)
        rw [swapAt_right] at hm'
        exact ⟨m', a', hm', hheap, hcontents.trans (contents_swapAt hi hin (by omega) hkn)⟩

/-! ## The path to a position -/

/-- Where the path of `node` leads to from position `q` -/
def target (q node : Nat) : Nat := (q - 1) * 2 ^ Nat.log2 node + node

theorem target_one (q : Nat) (hq : 1 ≤ q) : target q 1 = q := by
  rw [target, show Nat.log2 1 = 0 from by decide, Nat.pow_zero, Nat.mul_one, Nat.sub_add_cancel hq]

theorem target_of_one (node : Nat) : target 1 node = node := by rw [target, Nat.sub_self, Nat.zero_mul, Nat.zero_add]

theorem le_target {q node : Nat} (hnode : 1 ≤ node) : q ≤ target q node := by
  have hpow : (q - 1) * 1 ≤ (q - 1) * 2 ^ Nat.log2 node := Nat.mul_le_mul_left _ (Nat.two_pow_pos _)
  rw [target]
  omega

/-- A move takes the path one level down. -/
theorem heapGetMove_spec {q node : Nat} (hq : 1 ≤ q) (hnode : 2 ≤ node) :
    ∃ s rest, heapGetMove node = (s, rest) ∧ 1 ≤ rest ∧ rest < node ∧ target (2 * q + s.bit) rest = target q node := by
  obtain ⟨q, rfl⟩ : ∃ q', q = q' + 1 := ⟨q - 1, by omega⟩
  obtain ⟨l, hl⟩ : ∃ l, Nat.log2 node = l + 1 := by
    refine ⟨Nat.log2 node - 1, ?_⟩
    have hpos : 1 ≤ Nat.log2 node := (Nat.le_log2 (by omega)).mpr hnode
    omega
  obtain ⟨hlow, hhigh⟩ := (Nat.log2_eq_iff (by omega)).mp hl
  have hpos := Nat.two_pow_pos l
  have hbase : 2 ^ (l + 1) = 2 * 2 ^ l := by rw [Nat.pow_succ, Nat.mul_comm]
  have hbase' : 2 ^ (l + 1 + 1) = 4 * 2 ^ l := by rw [Nat.pow_succ, hbase]; omega
  rw [hbase] at hlow
  rw [hbase'] at hhigh
  have hhalf : 2 * 2 ^ l / 2 = 2 ^ l := by omega
  rw [heapGetMove, hl, hbase]
  rw [hhalf]
  by_cases hleft : node - 2 ^ l < 2 * 2 ^ l
  · have hlog : Nat.log2 (node - 2 ^ l) = l :=
      (Nat.log2_eq_iff (by omega)).mpr ⟨by omega, by rw [hbase]; omega⟩
    refine ⟨.left, node - 2 ^ l, if_pos hleft, by omega, by omega, ?_⟩
    rw [target, target, hlog, hl, hbase, show 2 * (q + 1) + Side.left.bit - 1 = 2 * q + 1 from by simp only [Side.bit]; omega,
      Nat.add_sub_cancel, Nat.add_mul, Nat.mul_assoc 2 q, ← Nat.mul_assoc q 2, Nat.mul_comm q 2, Nat.mul_assoc 2 q]
    omega
  · have hlog : Nat.log2 (node - 2 ^ l - 2 ^ l) = l :=
      (Nat.log2_eq_iff (by omega)).mpr ⟨by omega, by rw [hbase]; omega⟩
    refine ⟨.right, node - 2 ^ l - 2 ^ l, if_neg hleft, by omega, by omega, ?_⟩
    rw [target, target, hlog, hl, hbase, show 2 * (q + 1) + Side.right.bit - 1 = 2 * q + 2 from by simp only [Side.bit]; omega,
      Nat.add_sub_cancel, Nat.add_mul, Nat.mul_assoc 2 q, ← Nat.mul_assoc q 2, Nat.mul_comm q 2, Nat.mul_assoc 2 q]
    omega

/-- From the node at position `q`, the loop gets to the node that the path
leads to. -/
theorem Links.heapGetFrom_spec (h : m.Links a n) : ∀ {fuel node q : Nat}, 1 ≤ node → node ≤ fuel → 1 ≤ q →
    target q node ≤ n → m.heapGetFrom fuel node (a q) = some (a (target q node))
  | 0, node, q, hnode, hfuel, _, _ => by omega
  | fuel + 1, node, q, hnode, hfuel, hq, htarget => by
      rw [heapGetFrom]
      by_cases hone : node = 1
      · subst hone
        rw [if_neg (not_not_intro rfl), target_one q hq]
      · obtain ⟨s, rest, hmove, hrest, hlt, heq⟩ := heapGetMove_spec hq (show 2 ≤ node by omega)
        have hnext : 2 * q + s.bit ≤ n := Nat.le_trans (le_target hrest) (heq ▸ htarget)
        rw [if_pos hone, hmove]
        dsimp only
        rw [h.child s q hq (by omega), nodeAt_of_le (by omega) hnext, Option.bind_some, ← heq]
        exact h.heapGetFrom_spec hrest (by omega) (by omega) (by rw [heq]; exact htarget)

/-- The path of position `k` leads to the node at position `k`. -/
theorem Links.heapGet_spec (h : m.Links a n) (hroot : m.root = nodeAt a n 1) (hk : 1 ≤ k) (hkn : k ≤ n) :
    m.heapGet k = some (a k) := by
  rw [heapGet, hroot, nodeAt_of_le (Nat.le_refl 1) (by omega), Option.bind_some,
    h.heapGetFrom_spec hk (Nat.le_refl k) (Nat.le_refl 1) (by rw [target_of_one]; exact hkn), target_of_one]

/-! ## Taking the first node -/

omit [DecidableEq α] in
/-- The nodes that stay, with the last one in the place of the first one -/
theorem nodeAt_moved (hi : 2 ≤ i) (hne : i ≠ n + 1) :
    nodeAt (swapAt a 1 (n + 1)) n i = nodeAt a (n + 1) i := by
  rw [nodeAt_swapAt_of_ne (by omega) hne, nodeAt, nodeAt]
  exact if_congr ⟨fun h => ⟨h.1, by omega⟩, fun h => ⟨h.1, by omega⟩⟩ rfl rfl

omit [DecidableEq α] in
theorem Links.nodup_moved (h : m.Links a (n + 1)) : (contents (swapAt a 1 (n + 1)) n).Nodup := by
  have hall := h.nodup
  rw [← contents_swapAt (Nat.le_refl 1) (Nat.succ_pos n) (Nat.succ_pos n) (Nat.le_refl _), contents_succ] at hall
  exact (Multiset.nodup_cons.mp hall).2

/-- The last node takes the place of its parent, the first node. -/
theorem Links.adoptSibling (h : m.Links a (n + 1)) (hn : 1 ≤ n) (hparent : (n + 1) / 2 = 1) :
    (m.adoptSibling (n + 1) (a (n + 1)) (a 1)).Links (swapAt a 1 (n + 1)) n := by
  obtain ⟨s, hs⟩ : ∃ s, s = (lastSide (n + 1)).other := ⟨_, rfl⟩
  have hlast := lastSide_bit (n + 1)
  have hother := bit_other (lastSide (n + 1))
  have hle := bit_le (lastSide (n + 1))
  rw [← hs] at hother
  have hchild : ∀ t x, (m.adoptSibling (n + 1) (a (n + 1)) (a 1)).child t x
      = if t = s ∧ x = a (n + 1) then m.child s (a 1) else m.child t x := by
    intro t x
    rw [IntrusiveHeap.adoptSibling, ← hs]
    simp only [setParent_child, setChild_child]
  have hlink : ∀ x, (m.adoptSibling (n + 1) (a (n + 1)) (a 1)).parent x
      = if x = a (n + 1) then none else if m.child s (a 1) = some x then some (a (n + 1)) else m.parent x := by
    intro x
    rw [IntrusiveHeap.adoptSibling, ← hs]
    simp only [setParent_parent, setChild_parent, setChild_child, and_self, if_true, Option.some.injEq]
    exact if_congr eq_comm rfl rfl
  refine ⟨h.nodup_moved, fun t j hj hjn => ?_, fun j hj hjn => ?_⟩
  · have ht := bit_le t
    rw [hchild]
    rcases Nat.eq_or_lt_of_le hj with rfl | hj
    · rw [swapAt_left]
      by_cases hts : t = s
      · subst hts
        rw [if_pos ⟨rfl, rfl⟩, h.child t 1 (Nat.le_refl 1) (by omega), nodeAt_moved (by omega) (by omega)]
      · have hlast' : t = lastSide (n + 1) := by
          rw [eq_other_of_ne hts, hs]
          cases lastSide (n + 1) <;> rfl
        rw [if_neg fun h' => hts h'.1, h.child t _ (by omega) (Nat.le_refl _), nodeAt_of_lt (by omega),
          nodeAt_of_lt (by rw [hlast']; omega)]
    · have hne : a j ≠ a (n + 1) := h.ne (by omega) (by omega) (by omega) (Nat.le_refl _) (by omega)
      rw [swapAt_of_ne (by omega) (by omega), if_neg fun h' => hne h'.2, h.child t j (by omega) (by omega),
        nodeAt_moved (by omega) (by omega)]
  · rw [hlink]
    rcases Nat.eq_or_lt_of_le hj with rfl | hj
    · rw [swapAt_left, if_pos rfl]
      exact nodeAt_zero.symm
    · have hne : a j ≠ a (n + 1) := h.ne (by omega) (by omega) (by omega) (Nat.le_refl _) (by omega)
      have hsibling : m.child s (a 1) = some (a j) :=
        (h.child_iff (Nat.le_refl 1) (by omega) (by omega) (by omega)).mpr (by omega)
      rw [swapAt_of_ne (by omega) (by omega), if_neg hne, if_pos hsibling, show j / 2 = 1 by omega,
        nodeAt_of_le (Nat.le_refl 1) hn, swapAt_left]

/-- The last node takes the place of the first node from elsewhere. -/
theorem Links.adoptChildren (h : m.Links a (n + 1)) (hparent : (n + 1) / 2 ≠ 1) (hn : 1 ≤ n) :
    ∃ m', m.adoptChildren (n + 1) (a ((n + 1) / 2)) (a (n + 1)) (a 1) = some m'
      ∧ m'.Links (swapAt a 1 (n + 1)) n ∧ m'.root = some (a (n + 1)) ∧ m'.size = m.size := by
  obtain ⟨s, hs⟩ : ∃ s, s = lastSide (n + 1) := ⟨_, rfl⟩
  have hlast := lastSide_bit (n + 1)
  rw [← hs] at hlast
  have hle := bit_le s
  have hfour : 4 ≤ n + 1 := by omega
  have hne : a ((n + 1) / 2) ≠ a (n + 1) := h.ne (by omega) (by omega) (by omega) (Nat.le_refl _) (by omega)
  have hne' : a 1 ≠ a ((n + 1) / 2) := h.ne (by omega) (by omega) (by omega) (by omega) (by omega)
  have hone : a 1 ≠ a (n + 1) := h.ne (by omega) (by omega) (by omega) (Nat.le_refl _) (by omega)
  have hleaf : ∀ t, m.child t (a (n + 1)) = none := fun t => by
    rw [h.child t _ (by omega) (Nat.le_refl _), nodeAt_of_lt (by omega)]
  obtain ⟨m₁, hm₁⟩ : ∃ m₁, m₁ = m.setChild s (a ((n + 1) / 2)) none := ⟨_, rfl⟩
  have hchild₁ : ∀ t x, m₁.child t x = if t = s ∧ x = a ((n + 1) / 2) then none else m.child t x := fun t x => by
    rw [hm₁, setChild_child]
  have hmax₁ : ∀ t, m₁.child t (a 1) = m.child t (a 1) := fun t => by rw [hchild₁, if_neg fun h' => hne' h'.2]
  have hleaf₁ : ∀ t, m₁.child t (a (n + 1)) = none := fun t => by
    rw [hchild₁, if_neg fun h' => hne h'.2.symm, hleaf]
  obtain ⟨m', hm'⟩ : ∃ m', m' = { (((((m₁.setChild .left (a (n + 1)) (m₁.child .left (a 1))).setParent
      (m₁.child .left (a 1)) (some (a (n + 1)))).setChild .right (a (n + 1)) (m₁.child .right (a 1))).setParent
      (m₁.child .right (a 1)) (some (a (n + 1)))).setParent (some (a (n + 1))) none) with
        root := some (a (n + 1)) } := ⟨_, rfl⟩
  have hresult : m.adoptChildren (n + 1) (a ((n + 1) / 2)) (a (n + 1)) (a 1) = some m' := by
    rw [IntrusiveHeap.adoptChildren, ← hs, ← hm₁, if_pos ⟨hleaf₁ .left, hleaf₁ .right⟩, hm']
    simp only [setParent_child, setChild_child, hone, and_self, and_false, if_true, if_false]
  have hchild : ∀ t x, m'.child t x = if x = a (n + 1) then m.child t (a 1)
      else if t = s ∧ x = a ((n + 1) / 2) then none else m.child t x := by
    intro t x
    rw [hm', ← hchild₁]
    simp only [setParent_child, setChild_child, hmax₁]
    cases t <;> by_cases hx : x = a (n + 1) <;> simp [hx]
  have hlink : ∀ x, m'.parent x = if x = a (n + 1) then none
      else if m.child .right (a 1) = some x ∨ m.child .left (a 1) = some x then some (a (n + 1)) else m.parent x := by
    intro x
    rw [hm']
    have hparent₁ : m₁.parent = m.parent := by rw [hm₁, setChild_parent]
    simp only [setParent_parent, setChild_parent, hmax₁, Option.some.injEq, hparent₁]
    by_cases hx : x = a (n + 1)
    · simp [hx]
    · rw [if_neg (Ne.symm hx), if_neg hx]
      by_cases hright : m.child .right (a 1) = some x <;> simp [hright]
  refine ⟨m', hresult, ⟨h.nodup_moved, fun t j hj hjn => ?_, fun j hj hjn => ?_⟩, by rw [hm'], ?_⟩
  · have ht := bit_le t
    rw [hchild]
    rcases Nat.eq_or_lt_of_le hj with rfl | hj
    · rw [swapAt_left, if_pos rfl, h.child t 1 (Nat.le_refl 1) (by omega), nodeAt_moved (by omega) (by omega)]
    · rw [swapAt_of_ne (by omega) (by omega),
        if_neg (h.ne (by omega) (by omega) (by omega) (Nat.le_refl _) (by omega))]
      by_cases hlost : t = s ∧ a j = a ((n + 1) / 2)
      · obtain ⟨rfl, heq⟩ := hlost
        obtain rfl := eq_of_nodup h.nodup (by omega) (by omega) (by omega) (by omega) heq
        rw [if_pos ⟨rfl, rfl⟩, nodeAt_of_lt (by omega)]
      · have hkept : 2 * j + t.bit ≠ n + 1 := by
          intro heq
          have hj : j = (n + 1) / 2 := by omega
          exact hlost ⟨bit_inj (by omega), congrArg a hj⟩
        rw [if_neg hlost, h.child t j (by omega) (by omega), nodeAt_moved (by omega) hkept]
  · rw [hlink]
    rcases Nat.eq_or_lt_of_le hj with rfl | hj
    · rw [swapAt_left, if_pos rfl]
      exact nodeAt_zero.symm
    · rw [swapAt_of_ne (by omega) (by omega),
        if_neg (h.ne (by omega) (by omega) (by omega) (Nat.le_refl _) (by omega))]
      have hfirst : m.child .right (a 1) = some (a j) ∨ m.child .left (a 1) = some (a j) ↔ j / 2 = 1 := by
        rw [h.child_iff (Nat.le_refl 1) (by omega) (by omega) (by omega),
          h.child_iff (Nat.le_refl 1) (by omega) (by omega) (by omega)]
        simp only [Side.bit]
        omega
      by_cases hbelow : j / 2 = 1
      · rw [if_pos (hfirst.mpr hbelow), hbelow, nodeAt_of_le (Nat.le_refl 1) hn, swapAt_left]
      · rw [if_neg fun hor => hbelow (hfirst.mp hor), h.parent j (by omega) (by omega),
          nodeAt_moved (by omega) (by omega)]
  · rw [hm', hm₁]
    simp

/-- `heap_pop_max` takes the first node. -/
theorem IsHeap.pop (h : IsHeap cmp m a (n + 1)) (hcmp : TotalPreorder cmp) :
    ∃ m' a', m.heapPopMax cmp = some (some (a 1), m') ∧ IsHeap cmp m' a' n
      ∧ contents a (n + 1) = a 1 ::ₘ contents a' n := by
  have hroot : m.root = some (a 1) := h.root.trans (nodeAt_of_le (Nat.le_refl 1) (by omega))
  have hget : m.heapGet m.size = some (a (n + 1)) := by
    rw [h.size]
    exact h.links.heapGet_spec h.root (by omega) (Nat.le_refl _)
  have hparent := h.links.parent (n + 1) (by omega) (Nat.le_refl _)
  have hcontents : contents a (n + 1) = a 1 ::ₘ contents (swapAt a 1 (n + 1)) n := by
    rw [← contents_swapAt (Nat.le_refl 1) (Nat.succ_pos n) (Nat.succ_pos n) (Nat.le_refl _), contents_succ, swapAt_right]
  rw [heapPopMax, hroot]
  dsimp only
  rw [hget, Option.bind_some]
  rw [hparent, h.size]
  rcases Nat.eq_zero_or_pos n with rfl | hn
  · rw [nodeAt_zero]
    refine ⟨_, a, rfl, ⟨⟨Multiset.nodup_zero, ?_, ?_⟩, ?_, ?_, rfl⟩, ?_⟩
    · exact fun s i hi hin => by omega
    · exact fun i hi hin => by omega
    · exact fun i hi hin => by omega
    · exact (nodeAt_of_lt (by decide)).symm
    · rw [hcontents]
      rfl
  · rw [nodeAt_of_le (by omega) (by omega), Nat.add_sub_cancel]
    obtain ⟨m₁, hm₁⟩ : ∃ m₁ : IntrusiveHeap α, m₁ = ⟨some (a 1), n, m.parent, m.child⟩ := ⟨_, rfl⟩
    have hlinks : m₁.Links a (n + 1) := by
      rw [hm₁]
      exact ⟨h.links.nodup, h.links.child, h.links.parent⟩
    -- the last node in the place of the first one
    obtain ⟨m₂, hmoved, hlinks₂, hroot₂, hsize₂⟩ : ∃ m₂, (if a ((n + 1) / 2) = a 1 then
          some (m₁.adoptSibling (n + 1) (a (n + 1)) (a 1))
        else m₁.adoptChildren (n + 1) (a ((n + 1) / 2)) (a (n + 1)) (a 1)) = some m₂
        ∧ m₂.Links (swapAt a 1 (n + 1)) n ∧ m₂.root = some (a (n + 1)) ∧ m₂.size = n := by
      by_cases hfirst : (n + 1) / 2 = 1
      · rw [if_pos (by rw [hfirst])]
        refine ⟨_, rfl, hlinks.adoptSibling hn hfirst, rfl, ?_⟩
        rw [adoptSibling, hm₁]
        simp
      · rw [if_neg (hlinks.ne (by omega) (by omega) (by omega) (by omega) hfirst)]
        obtain ⟨m₂, hm₂, hlinks₂, hroot₂, hsize₂⟩ := hlinks.adoptChildren hfirst hn
        exact ⟨m₂, hm₂, hlinks₂, hroot₂, by rw [hsize₂, hm₁]⟩
    obtain ⟨m', a', hm', hheap, hcontents'⟩ := heapMaxHeapify_spec hcmp (n + 1 + 1) true hlinks₂
      h.ordered.downOrdered (Nat.le_refl 1) hn (by omega) (by rw [hroot₂, swapAt_left]) hsize₂ (by simp)
    rw [swapAt_left] at hm'
    refine ⟨m', a', ?_, hheap, by rw [hcontents, hcontents']⟩
    dsimp only
    rw [← hm₁, hmoved, Option.bind_some, hm', Option.map_some]

/-! ## Adding a node -/

theorem exchangeUp_root : (m.exchangeUp c p).root = m.root := by
  rw [exchangeUp, setParent_root, setParent_root, exchangeChildren, swapChild_root, setChild_root, setParent_root,
    setChild_root]
  simp

/-- The loop of `heap_insert` lets a node rise to where it belongs. -/
theorem bubbleUp_spec (hcmp : TotalPreorder cmp) : ∀ (fuel : Nat) {m : IntrusiveHeap α} {a : Nat → α} {i : Nat},
    m.Links a n → UpOrdered (fun x y => cmp x y ≤ 0) a n i → 1 ≤ i → i ≤ n → i ≤ fuel → m.size = n →
      (2 ≤ i → m.root = some (a 1)) →
      ∃ m' a', bubbleUp cmp fuel m (a i) (nodeAt a n (i / 2)) = some m' ∧ IsHeap cmp m' a' n
        ∧ contents a' n = contents a n
  | 0, _, _, _, _, _, _, _, _, _, _ => by omega
  | fuel + 1, m, a, i, h, hup, hi, hin, hfuel, hsize, hroot => by
      rcases Nat.eq_or_lt_of_le hi with rfl | htwo
      · -- the node is the root
        rw [show nodeAt a n (1 / 2) = none from nodeAt_zero, bubbleUp]
        refine ⟨_, a, rfl, ⟨⟨h.nodup, h.child, h.parent⟩, hup.ordered fun h' => absurd h' (by decide), ?_, hsize⟩, rfl⟩
        exact (nodeAt_of_le (Nat.le_refl 1) hin).symm
      · rw [nodeAt_of_le (by omega) (by omega), bubbleUp]
        by_cases hgreater : 0 < cmp (a i) (a (i / 2))
        · rw [if_pos hgreater]
          have hlast : 2 * (i / 2) + (lastSide i).bit = i := lastSide_bit i
          have hexchanged := exchangeUp_exchanged (h.adjacent (i := i / 2) (s := lastSide i) (by omega) (by omega))
          have hlinks := h.exchange (by omega) (by omega) hexchanged
          rw [hlast] at hexchanged hlinks
          rw [swapAt_comm] at hlinks
          have hup' := hup.swap htwo (hcmp.le_of_greater hgreater) hcmp.trans
          have hparent : (m.exchangeUp (a i) (a (i / 2))).parent (a i)
              = nodeAt (swapAt a i (i / 2)) n (i / 2 / 2) := by
            have hpos := hlinks.parent (i / 2) (by omega) (by omega)
            rwa [swapAt_right] at hpos
          have hroot' : 2 ≤ i / 2 → (m.exchangeUp (a i) (a (i / 2))).root = some (swapAt a i (i / 2) 1) := by
            intro hle
            rw [exchangeUp_root, hroot htwo, swapAt_of_ne (by omega) (by omega)]
          obtain ⟨m', a', hm', hheap, hcontents⟩ := bubbleUp_spec hcmp fuel hlinks hup' (by omega) (by omega)
            (by omega) (hexchanged.size.trans hsize) hroot'
          rw [swapAt_right] at hm'
          refine ⟨m', a', ?_, hheap, hcontents.trans (contents_swapAt hi hin (by omega) (by omega))⟩
          dsimp only
          rw [hparent]
          exact hm'
        · rw [if_neg hgreater]
          refine ⟨m, a, rfl, ⟨h, hup.ordered fun _ => Int.not_lt.mp hgreater, ?_, hsize⟩, rfl⟩
          rw [hroot htwo, nodeAt_of_le (Nat.le_refl 1) (by omega)]

/-- `heap_insert` adds a node that is not in the heap. -/
theorem IsHeap.insert (h : IsHeap cmp m a n) (hcmp : TotalPreorder cmp) (hx : x ∉ contents a n) :
    ∃ m' a', m.heapInsert cmp x = some m' ∧ IsHeap cmp m' a' (n + 1) ∧ contents a' (n + 1) = x ::ₘ contents a n := by
  -- the node without links, and a heap without the node
  obtain ⟨m₁, hm₁⟩ : ∃ m₁ : IntrusiveHeap α, m₁ =
    { ((m.setChild .left x none).setChild .right x none).setParent (some x) none with
      size := (((m.setChild .left x none).setChild .right x none).setParent (some x) none).size + 1 } := ⟨_, rfl⟩
  have hchild₁ : ∀ t y, m₁.child t y = if y = x then none else m.child t y := by
    intro t y
    rw [hm₁]
    simp only [setParent_child, setChild_child]
    cases t <;> by_cases hy : y = x <;> simp [hy]
  have hparent₁ : ∀ y, m₁.parent y = if y = x then none else m.parent y := by
    intro y
    rw [hm₁]
    simp only [setParent_parent, setChild_parent, Option.some.injEq]
    exact if_congr eq_comm rfl rfl
  have hroot₁ : m₁.root = m.root := by
    rw [hm₁]
    simp
  have hsize₁ : m₁.size = n + 1 := by
    rw [hm₁]
    simp [h.size]
  have hne : ∀ i, 1 ≤ i → i ≤ n → a i ≠ x := fun i hi hin heq => hx (mem_contents.mpr ⟨i, hi, hin, heq⟩)
  have hlinks₁ : m₁.Links a n := by
    refine ⟨h.links.nodup, fun t i hi hin => ?_, fun i hi hin => ?_⟩
    · rw [hchild₁, if_neg (hne i hi hin), h.links.child t i hi hin]
    · rw [hparent₁, if_neg (hne i hi hin), h.links.parent i hi hin]
  obtain ⟨b, hb⟩ : ∃ b, b = Function.update a (n + 1) x := ⟨_, rfl⟩
  have hbx : b (n + 1) = x := by rw [hb, Function.update_self]
  have hba : ∀ i, i ≤ n → b i = a i := fun i hin => by rw [hb, Function.update_of_ne (by omega)]
  have hcontents : contents b (n + 1) = x ::ₘ contents a n := by
    rw [contents_succ, hbx, contents_congr fun i _ hin => hba i hin]
  have hinsert : m.heapInsert cmp x = match m₁.root with
      | none => some { m₁ with root := some x }
      | some _ => (m₁.heapGet (m₁.size / 2)).bind fun parent =>
          if m₁.child (lastSide m₁.size) parent = none then
            bubbleUp cmp (m₁.size + 1) ((m₁.setChild (lastSide m₁.size) parent (some x)).setParent (some x) (some parent))
              x (some parent)
          else none := by
    rw [hm₁]
    rfl
  rw [hinsert, hroot₁, h.root]
  rcases Nat.eq_zero_or_pos n with rfl | hn
  · rw [nodeAt_of_lt (by decide)]
    refine ⟨_, b, rfl, ⟨⟨?_, fun t i hi hin => ?_, fun i hi hin => ?_⟩, ?_, ?_, hsize₁⟩, hcontents⟩
    · rw [hcontents]
      exact Multiset.nodup_singleton x
    · obtain rfl : i = 1 := by omega
      show m₁.child t (b 1) = _
      rw [hchild₁, if_pos hbx, nodeAt_of_lt (by omega)]
    · obtain rfl : i = 1 := by omega
      show m₁.parent (b 1) = _
      rw [hparent₁, if_pos hbx]
      exact nodeAt_zero.symm
    · exact fun i hi hin => by omega
    · rw [nodeAt_of_le (Nat.le_refl 1) (Nat.le_refl 1), ← hbx]
  · rw [nodeAt_of_le (Nat.le_refl 1) hn]
    dsimp only
    have hlast := lastSide_bit (n + 1)
    have hbit := bit_le (lastSide (n + 1))
    rw [hsize₁, hlinks₁.heapGet_spec (hroot₁.trans h.root) (k := (n + 1) / 2) (by omega) (by omega), Option.bind_some,
      hlinks₁.child (lastSide (n + 1)) ((n + 1) / 2) (by omega) (by omega), hlast, nodeAt_of_lt (Nat.lt_succ_self n),
      if_pos rfl]
    obtain ⟨m₂, hm₂⟩ : ∃ m₂, m₂ = (m₁.setChild (lastSide (n + 1)) (a ((n + 1) / 2)) (some x)).setParent
      (some x) (some (a ((n + 1) / 2))) := ⟨_, rfl⟩
    have hchild₂ : ∀ t y, m₂.child t y = if t = lastSide (n + 1) ∧ y = a ((n + 1) / 2) then some x
        else if y = x then none else m.child t y := by
      intro t y
      rw [hm₂, setParent_child, setChild_child, hchild₁]
    have hparent₂ : ∀ y, m₂.parent y = if y = x then some (a ((n + 1) / 2)) else m.parent y := by
      intro y
      rw [hm₂, setParent_parent, setChild_parent, hparent₁]
      by_cases hy : y = x
      · simp [hy]
      · simp [hy, Ne.symm hy]
    have hbefore : ∀ i, i ≤ n → nodeAt b (n + 1) i = nodeAt a n i := by
      intro i hin
      rw [nodeAt, nodeAt, hba i hin]
      exact if_congr ⟨fun h => ⟨h.1, hin⟩, fun h => ⟨h.1, by omega⟩⟩ rfl rfl
    have hlinks₂ : m₂.Links b (n + 1) := by
      refine ⟨?_, fun t i hi hin => ?_, fun i hi hin => ?_⟩
      · rw [hcontents]
        exact Multiset.nodup_cons.mpr ⟨hx, h.links.nodup⟩
      · have ht := bit_le t
        rw [hchild₂]
        rcases Nat.eq_or_lt_of_le hin with rfl | hin
        · rw [hbx, if_neg fun h' => hne _ (by omega) (by omega) h'.2.symm, if_pos rfl, nodeAt_of_lt (by omega)]
        · rw [hba i (by omega)]
          by_cases hnew : t = lastSide (n + 1) ∧ a i = a ((n + 1) / 2)
          · obtain ⟨rfl, heq⟩ := hnew
            obtain rfl := eq_of_nodup h.links.nodup hi (by omega) (by omega) (by omega) heq
            rw [if_pos ⟨rfl, rfl⟩, hlast, nodeAt_of_le (by omega) (Nat.le_refl _), hbx]
          · have hold : 2 * i + t.bit ≠ n + 1 := by
              intro heq
              have hieq : i = (n + 1) / 2 := by omega
              exact hnew ⟨bit_inj (by omega), congrArg a hieq⟩
            rw [if_neg hnew, if_neg (hne i hi (by omega)), h.links.child t i hi (by omega)]
            by_cases hle : 2 * i + t.bit ≤ n
            · exact (hbefore _ hle).symm
            · rw [nodeAt_of_lt (by omega), nodeAt_of_lt (by omega)]
      · rw [hparent₂]
        rcases Nat.eq_or_lt_of_le hin with rfl | hin
        · rw [hbx, if_pos rfl, hbefore _ (by omega), nodeAt_of_le (by omega) (by omega)]
        · rw [hba i (by omega), if_neg (hne i hi (by omega)), h.links.parent i hi (by omega), hbefore _ (by omega)]
    have hroot₂ : 2 ≤ n + 1 → m₂.root = some (b 1) := by
      intro _
      rw [hm₂, setParent_root, setChild_root, hroot₁, h.root, nodeAt_of_le (Nat.le_refl 1) hn, hba 1 hn]
    have hsize₂ : m₂.size = n + 1 := by rw [hm₂, setParent_size, setChild_size, hsize₁]
    obtain ⟨m', a', hm', hheap, hcontents'⟩ := bubbleUp_spec hcmp (n + 1 + 1) (i := n + 1) hlinks₂
      (hb ▸ h.ordered.upOrdered) (by omega) (Nat.le_refl _) (by omega) hsize₂ hroot₂
    rw [hbx, hbefore _ (by omega), nodeAt_of_le (by omega) (by omega)] at hm'
    refine ⟨m', a', ?_, hheap, hcontents'.trans hcontents⟩
    rw [← hm₂]
    exact hm'

end IntrusiveHeap

/-! ## Runs -/

inductive HeapOp (α : Type*) where
  | insert (node : α)
  | pop
  deriving DecidableEq, Repr

/-- A heap, and the nodes that have been inserted and popped so far -/
structure HeapRun (α : Type*) where
  heap : IntrusiveHeap α
  inserted : Multiset α
  popped : Multiset α

namespace HeapRun

open LevelHeap IntrusiveHeap

variable {α : Type*} [DecidableEq α] (cmp : α → α → Int)

def start (parent : α → Option α) (child : Side → α → Option α) : HeapRun α :=
  ⟨IntrusiveHeap.init parent child, 0, 0⟩

def step (s : HeapRun α) : HeapOp α → Option (HeapRun α)
  | .insert x => (s.heap.heapInsert cmp x).map fun m => { s with heap := m, inserted := x ::ₘ s.inserted }
  | .pop => (s.heap.heapPopMax cmp).map fun (r, m) =>
      { s with heap := m, popped := match r with | some x => x ::ₘ s.popped | none => s.popped }

/-- The nodes that are in the heap -/
def nodes (s : HeapRun α) : Multiset α := s.inserted - s.popped

/-- A node is inserted only while it is not in the heap. -/
def Allowed (s : HeapRun α) (op : HeapOp α) : Prop := ∀ x, op = .insert x → x ∉ s.nodes

instance (s : HeapRun α) : (op : HeapOp α) → Decidable (s.Allowed op)
  | .insert x => decidable_of_iff (x ∉ s.nodes) ⟨fun h _ heq => by cases heq; exact h, fun h => h x rfl⟩
  | .pop => isTrue fun _ heq => nomatch heq

/-- The heap is a priority queue of its nodes, which are `a 1`, `a 2` and so
on in level order. -/
structure IsPriorityQueue (s : HeapRun α) (a : Nat → α) : Prop where
  /-- The nodes are those that have been inserted and not popped. -/
  nodes : contents a s.heap.size = s.nodes
  popped : s.popped ≤ s.inserted
  nodup : s.nodes.Nodup
  /-- The path of position `k` leads to the node at position `k`. -/
  path : ∀ k, 1 ≤ k → k ≤ s.heap.size → s.heap.heapGet k = some (a k)
  /-- The links are those of the complete tree. -/
  root : s.heap.root = nodeAt a s.heap.size 1
  child : ∀ t k, 1 ≤ k → k ≤ s.heap.size → s.heap.child t (a k) = nodeAt a s.heap.size (2 * k + t.bit)
  parent : ∀ k, 1 ≤ k → k ≤ s.heap.size → s.heap.parent (a k) = nodeAt a s.heap.size (k / 2)
  ordered : ∀ k, 2 ≤ k → k ≤ s.heap.size → cmp (a k) (a (k / 2)) ≤ 0
  /-- `heap_pop_max` returns a greatest node, and `NULL` for no nodes. -/
  pop : ∃ r m, s.heap.heapPopMax cmp = some (r, m) ∧ (r = none ↔ s.nodes = 0)
    ∧ ∀ x, r = some x → x ∈ s.nodes ∧ ∀ y ∈ s.nodes, cmp y x ≤ 0

variable {cmp} {s : HeapRun α} {a : Nat → α} {n : Nat}

/-- The heap is a tree of the nodes that have been inserted and not popped. -/
def Inv (cmp : α → α → Int) (s : HeapRun α) : Prop :=
  ∃ a n, IsHeap cmp s.heap a n ∧ s.inserted = s.popped + contents a n

theorem nodes_eq (h : s.inserted = s.popped + contents a n) : s.nodes = contents a n := by
  rw [nodes, h, Multiset.add_comm, Multiset.add_sub_cancel_right]

theorem inv_start [Nonempty α] (parent : α → Option α) (child : Side → α → Option α) :
    Inv cmp (start parent child) := by
  obtain ⟨x⟩ := ‹Nonempty α›
  refine ⟨fun _ => x, 0, ⟨⟨Multiset.nodup_zero, ?_, ?_⟩, ?_, (nodeAt_of_lt (by decide)).symm, rfl⟩, rfl⟩
  · exact fun t i hi hin => by omega
  · exact fun i hi hin => by omega
  · exact fun i hi hin => by omega

theorem IsHeap.popMax (h : IsHeap cmp s.heap a n) (hcmp : TotalPreorder cmp) :
    ∃ r m a' n', s.heap.heapPopMax cmp = some (r, m) ∧ IsHeap cmp m a' n'
      ∧ (r = none ∧ contents a n = 0 ∧ contents a' n' = 0
        ∨ ∃ x, r = some x ∧ contents a n = x ::ₘ contents a' n' ∧ ∀ y ∈ contents a n, cmp y x ≤ 0) := by
  cases n with
  | zero =>
      have hroot : s.heap.root = none := h.root.trans (nodeAt_of_lt (by decide))
      refine ⟨none, s.heap, a, 0, by rw [heapPopMax, hroot], h, Or.inl ⟨rfl, rfl, rfl⟩⟩
  | succ n =>
      obtain ⟨m, a', hpop, hheap, hcontents⟩ := h.pop hcmp
      refine ⟨some (a 1), m, a', n, hpop, hheap, Or.inr ⟨a 1, rfl, hcontents, fun y hy => ?_⟩⟩
      obtain ⟨i, hi, hin, rfl⟩ := mem_contents.mp hy
      exact h.ordered.le_root hcmp.refl hcmp.trans i hi hin

theorem inv_step (hcmp : TotalPreorder cmp) (op : HeapOp α) (hop : s.Allowed op) (h : Inv cmp s) :
    ∃ s', s.step cmp op = some s' ∧ Inv cmp s' := by
  obtain ⟨a, n, hheap, hnodes⟩ := h
  cases op with
  | insert x =>
      have hx : x ∉ contents a n := nodes_eq hnodes ▸ hop x rfl
      obtain ⟨m, a', hinsert, hheap', hcontents⟩ := hheap.insert hcmp hx
      refine ⟨_, by rw [step, hinsert]; rfl, a', n + 1, hheap', ?_⟩
      rw [hcontents, Multiset.add_cons, ← hnodes]
  | pop =>
      obtain ⟨r, m, a', n', hpop, hheap', hempty | ⟨x, rfl, hcontents, -⟩⟩ := IsHeap.popMax hheap hcmp
      · obtain ⟨rfl, hempty, hempty'⟩ := hempty
        refine ⟨_, by rw [step, hpop]; rfl, a', n', hheap', ?_⟩
        rw [hempty', ← hempty]
        exact hnodes
      · refine ⟨_, by rw [step, hpop]; rfl, a', n', hheap', ?_⟩
        rw [hnodes, hcontents, Multiset.add_cons, Multiset.cons_add]

theorem Inv.isPriorityQueue (hcmp : TotalPreorder cmp) (h : Inv cmp s) : ∃ a, IsPriorityQueue cmp s a := by
  obtain ⟨a, n, hheap, hnodes⟩ := h
  obtain rfl := hheap.size
  have heq := nodes_eq hnodes
  refine ⟨a, heq.symm, hnodes ▸ Multiset.le_add_right _ _, heq ▸ hheap.links.nodup, fun k hk hkn =>
    hheap.links.heapGet_spec hheap.root hk hkn, hheap.root, hheap.links.child, hheap.links.parent, hheap.ordered, ?_⟩
  obtain ⟨r, m, a', n', hpop, -, hempty | ⟨x, rfl, hcontents, hmax⟩⟩ := IsHeap.popMax hheap hcmp
  · obtain ⟨rfl, hempty, -⟩ := hempty
    exact ⟨none, m, hpop, iff_of_true rfl (heq.trans hempty), fun x hx => nomatch hx⟩
  · refine ⟨some x, m, hpop, iff_of_false (by simp) ?_, fun y hy => ?_⟩
    · rw [heq, hcontents]
      exact Multiset.cons_ne_zero
    · obtain rfl := Option.some.inj hy
      rw [heq]
      exact ⟨by rw [hcontents]; exact Multiset.mem_cons_self _ _, hmax⟩

/-- After every sequence of operations, the heap is a priority queue. -/
theorem heap_priority_queue [Nonempty α] (hcmp : TotalPreorder cmp) (parent : α → Option α) (child : Side → α → Option α)
    {ops : List (HeapOp α)} (hops : Run.Along (step cmp) Allowed (start parent child) ops) :
    ∃ s, Run.run (step cmp) (start parent child) ops = some s ∧ ∃ a, IsPriorityQueue cmp s a := by
  obtain ⟨s, hrun, hinv⟩ := Run.progress_along (I := Inv cmp) (fun s op hop h => inv_step hcmp op hop h) hops
    (inv_start parent child)
  exact ⟨s, hrun, hinv.isPriorityQueue hcmp⟩

/-- Two insertions and a removal, with the numbers as their own keys -/
theorem heap_priority_queue_two :
    Run.Along (step fun x y : ℕ => (x : Int) - y) Allowed (start (fun _ => none) fun _ _ => none)
        [.insert 3, .insert 5, .pop]
      ∧ ∃ s, Run.run (step fun x y : ℕ => (x : Int) - y) (start (fun _ => none) fun _ _ => none)
          [.insert 3, .insert 5, .pop] = some s ∧ ∃ a, IsPriorityQueue (fun x y : ℕ => (x : Int) - y) s a :=
  have hops : Run.Along (step fun x y : ℕ => (x : Int) - y) Allowed (start (fun _ => none) fun _ _ => none)
      [.insert 3, .insert 5, .pop] := by decide
  ⟨hops, heap_priority_queue ⟨fun x y => by omega, fun x y z hxy hyz => by omega⟩ _ _ hops⟩

end HeapRun

end Nosv
