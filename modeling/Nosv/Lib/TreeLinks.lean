import Mathlib.Logic.Function.Basic
import Nosv.Lib.RBTree

/-!
# Red-black trees in memory

The nodes of an intrusive tree hold a hook with the links to the left and
the right child and to the parent, and a colour. The hooks of all nodes
are one table; `IsTree hook par ptr t` says that the link `ptr`, found in
a node whose address is `par`, leads to the tree `t`.

`transplant` puts one node in the place of another by rewriting the links
that lead to it. It renames the node: `IsTree.rename` says that a tree
whose hooks have all been renamed is the renamed tree, and the lemmas
before it find all the links that lead to a node.
-/

namespace RBTree

variable {α : Type*}

structure Hook (α : Type*) where
  left : Option α
  right : Option α
  parent : Option α
  color : Color
  deriving DecidableEq, Repr

/-- The link `ptr` in node `par` leads to the tree. -/
def IsTree (hook : α → Hook α) : Option α → Option α → RB α → Prop
  | _, ptr, .nil => ptr = none
  | par, ptr, .node c l x r =>
      ptr = some x ∧ (hook x).parent = par ∧ (hook x).color = c
        ∧ IsTree hook (some x) (hook x).left l ∧ IsTree hook (some x) (hook x).right r

variable {hook hook' : α → Hook α} {par ptr : Option α} {t : RB α}

theorem IsTree.root (h : IsTree hook par ptr t) : ptr = root? t := by
  cases t with
  | nil => exact h
  | node c l x r => exact h.1

/-- Only the hooks of the nodes matter. -/
theorem IsTree.congr : ∀ {t : RB α} {par ptr : Option α}, IsTree hook par ptr t →
    (∀ x ∈ inorder t, hook' x = hook x) → IsTree hook' par ptr t
  | .nil, _, _, h, _ => h
  | .node c l x r, par, ptr, h, hsame => by
      obtain ⟨hptr, hpar, hcol, hl, hr⟩ := h
      have hx : hook' x = hook x := hsame x (by simp)
      refine ⟨hptr, by rw [hx, hpar], by rw [hx, hcol], ?_, ?_⟩
      · rw [hx]
        exact hl.congr fun y hy => hsame y (by simp [hy])
      · rw [hx]
        exact hr.congr fun y hy => hsame y (by simp [hy])

/-! ## The links that lead to a node -/

/-- A link that is not `NULL` leads to the root of its tree. -/
theorem IsTree.mem_of_link {z : α} (h : IsTree hook par (some z) t) :
    z ∈ inorder t ∧ (hook z).parent = par := by
  cases t with
  | nil => cases h
  | node c l x r =>
      obtain ⟨hptr, hpar, -⟩ := h
      obtain rfl := Option.some.inj hptr
      exact ⟨by simp, hpar⟩

theorem nodup_node {c : Color} {l r : RB α} {x : α} (h : (inorder (.node c l x r)).Nodup) :
    (inorder l).Nodup ∧ (inorder r).Nodup ∧ x ∉ inorder l ∧ x ∉ inorder r
      ∧ ∀ y ∈ inorder l, y ∉ inorder r := by
  rw [inorder_node, List.nodup_append, List.nodup_cons] at h
  obtain ⟨hl, ⟨hxr, hr⟩, hdis⟩ := h
  exact ⟨hl, hr, fun hx => hdis x hx x List.mem_cons_self rfl, hxr,
    fun y hyl hyr => hdis y hyl y (List.mem_cons_of_mem x hyr) rfl⟩

theorem IsTree.left : ∀ {t : RB α} {par ptr : Option α}, IsTree hook par ptr t →
    (inorder t).Nodup → ∀ {y z : α}, y ∈ inorder t → (hook y).left = some z →
      z ∈ inorder t ∧ (hook z).parent = some y ∧ z ≠ y
  | .node c l x r, par, ptr, h, hnd, y, z, hy, hz => by
      obtain ⟨-, -, -, hl, hr⟩ := h
      obtain ⟨hndl, hndr, hxl, -, -⟩ := nodup_node hnd
      rw [inorder_node, List.mem_append, List.mem_cons] at hy
      rcases hy with hy | rfl | hy
      · obtain ⟨hmem, hlink⟩ := hl.left hndl hy hz
        exact ⟨by simp [hmem], hlink⟩
      · rw [hz] at hl
        obtain ⟨hmem, hpar⟩ := hl.mem_of_link
        exact ⟨by simp [hmem], hpar, fun heq => hxl (heq ▸ hmem)⟩
      · obtain ⟨hmem, hlink⟩ := hr.left hndr hy hz
        exact ⟨by simp [hmem], hlink⟩

theorem IsTree.right : ∀ {t : RB α} {par ptr : Option α}, IsTree hook par ptr t →
    (inorder t).Nodup → ∀ {y z : α}, y ∈ inorder t → (hook y).right = some z →
      z ∈ inorder t ∧ (hook z).parent = some y ∧ z ≠ y
  | .node c l x r, par, ptr, h, hnd, y, z, hy, hz => by
      obtain ⟨-, -, -, hl, hr⟩ := h
      obtain ⟨hndl, hndr, -, hxr, -⟩ := nodup_node hnd
      rw [inorder_node, List.mem_append, List.mem_cons] at hy
      rcases hy with hy | rfl | hy
      · obtain ⟨hmem, hlink⟩ := hl.right hndl hy hz
        exact ⟨by simp [hmem], hlink⟩
      · rw [hz] at hr
        obtain ⟨hmem, hpar⟩ := hr.mem_of_link
        exact ⟨by simp [hmem], hpar, fun heq => hxr (heq ▸ hmem)⟩
      · obtain ⟨hmem, hlink⟩ := hr.right hndr hy hz
        exact ⟨by simp [hmem], hlink⟩

/-- The parent of a node is a node with a link to it, except at the root. -/
theorem IsTree.parent : ∀ {t : RB α} {par ptr : Option α}, IsTree hook par ptr t →
    ∀ {y : α}, y ∈ inorder t → (ptr = some y ∧ (hook y).parent = par)
      ∨ ∃ z ∈ inorder t, (hook y).parent = some z
        ∧ ((hook z).left = some y ∨ (hook z).right = some y)
  | .node c l x r, par, ptr, h, y, hy => by
      obtain ⟨hptr, hpar, -, hl, hr⟩ := h
      rw [inorder_node, List.mem_append, List.mem_cons] at hy
      rcases hy with hy | rfl | hy
      · rcases hl.parent hy with ⟨hlink, hup⟩ | ⟨z, hz, hup, hlink⟩
        · exact Or.inr ⟨x, by simp, hup, Or.inl hlink⟩
        · exact Or.inr ⟨z, by simp [hz], hup, hlink⟩
      · exact Or.inl ⟨hptr, hpar⟩
      · rcases hr.parent hy with ⟨hlink, hup⟩ | ⟨z, hz, hup, hlink⟩
        · exact Or.inr ⟨x, by simp, hup, Or.inr hlink⟩
        · exact Or.inr ⟨z, by simp [hz], hup, hlink⟩

/-- The two children of a node are different. -/
theorem IsTree.left_ne_right : ∀ {t : RB α} {par ptr : Option α}, IsTree hook par ptr t →
    (inorder t).Nodup → ∀ {y z : α}, y ∈ inorder t → (hook y).left = some z →
      (hook y).right ≠ some z
  | .node c l x r, par, ptr, h, hnd, y, z, hy, hz => by
      obtain ⟨-, -, -, hl, hr⟩ := h
      obtain ⟨hndl, hndr, -, -, hdis⟩ := nodup_node hnd
      rw [inorder_node, List.mem_append, List.mem_cons] at hy
      rcases hy with hy | rfl | hy
      · exact hl.left_ne_right hndl hy hz
      · intro hz'
        rw [hz] at hl
        rw [hz'] at hr
        exact hdis z hl.mem_of_link.1 hr.mem_of_link.1
      · exact hr.left_ne_right hndr hy hz

/-- The nodes that the links lead to, from the link `ptr` on. -/
inductive Linked (hook : α → Hook α) (ptr : Option α) : α → Prop where
  | root {x : α} (h : ptr = some x) : Linked hook ptr x
  | left {x y : α} (h : Linked hook ptr x) (hy : (hook x).left = some y) : Linked hook ptr y
  | right {x y : α} (h : Linked hook ptr x) (hy : (hook x).right = some y) : Linked hook ptr y

/-- A link below a node that is linked. -/
theorem Linked.trans {ptr' : Option α} {y : α} (hptr : ∀ x, ptr' = some x → Linked hook ptr x)
    (h : Linked hook ptr' y) : Linked hook ptr y := by
  induction h with
  | root hx => exact hptr _ hx
  | left _ hy ih => exact ih.left hy
  | right _ hy ih => exact ih.right hy

/-- Exactly the nodes of the tree are linked. -/
theorem IsTree.linked_iff (h : IsTree hook par ptr t) (hnd : (inorder t).Nodup) {y : α} :
    Linked hook ptr y ↔ y ∈ inorder t := by
  constructor
  · intro hy
    induction hy with
    | root hx => exact (hx ▸ h).mem_of_link.1
    | left _ hz ih => exact (h.left hnd ih hz).1
    | right _ hz ih => exact (h.right hnd ih hz).1
  · intro hy
    clear hnd
    induction t generalizing par ptr with
    | nil => cases hy
    | node c l x r ihl ihr =>
        obtain ⟨hptr, -, -, hl, hr⟩ := h
        rw [inorder_node, List.mem_append, List.mem_cons] at hy
        rcases hy with hy | rfl | hy
        · exact (ihl hl hy).trans fun z hz => .left (.root hptr) hz
        · exact .root hptr
        · exact (ihr hr hy).trans fun z hz => .right (.root hptr) hz

/-! ## Reading and writing whole trees -/

/-- The tree behind a link, down to depth `n`. -/
def readTree (hook : α → Hook α) : Nat → Option α → RB α
  | 0, _ => .nil
  | _ + 1, none => .nil
  | n + 1, some x =>
      .node (hook x).color (readTree hook n (hook x).left) x (readTree hook n (hook x).right)

theorem IsTree.readTree : ∀ {t : RB α} {par ptr : Option α} {n : Nat}, IsTree hook par ptr t →
    size t ≤ n → RBTree.readTree hook n ptr = t
  | .nil, _, _, 0, _, _ => rfl
  | .nil, _, _, _ + 1, h, _ => by
      obtain rfl : _ = none := h
      rfl
  | .node c l x r, _, _, 0, _, hn => by simp [size] at hn
  | .node c l x r, par, ptr, n + 1, h, hn => by
      obtain ⟨rfl, -, hcol, hl, hr⟩ := h
      have hsize : size (.node c l x r) = size l + (size r + 1) := by simp [size]
      rw [RBTree.readTree, hcol, hl.readTree (by omega), hr.readTree (by omega)]

variable [DecidableEq α]

/-- Store the links of a tree whose parent is `par`. -/
def writeTree (hook : α → Hook α) (par : Option α) : RB α → α → Hook α
  | .nil => hook
  | .node c l x r =>
      writeTree (writeTree (Function.update hook x ⟨root? l, root? r, par, c⟩) (some x) l) (some x) r

theorem writeTree_of_notMem : ∀ {t : RB α} {hook : α → Hook α} {par : Option α} {y : α},
    y ∉ inorder t → writeTree hook par t y = hook y
  | .nil, _, _, _, _ => rfl
  | .node c l x r, hook, par, y, hy => by
      simp only [inorder_node, List.mem_append, List.mem_cons, not_or] at hy
      obtain ⟨hl, hx, hr⟩ := hy
      rw [writeTree, writeTree_of_notMem hr, writeTree_of_notMem hl, Function.update_of_ne hx]

theorem isTree_writeTree : ∀ {t : RB α} {hook : α → Hook α} {par : Option α},
    (inorder t).Nodup → IsTree (writeTree hook par t) par (root? t) t
  | .nil, _, _, _ => rfl
  | .node c l x r, hook, par, hnd => by
      obtain ⟨hl, hr, hxl, hxr, hdis⟩ := nodup_node hnd
      rw [writeTree]
      have hx : writeTree (writeTree (Function.update hook x ⟨root? l, root? r, par, c⟩)
          (some x) l) (some x) r x = ⟨root? l, root? r, par, c⟩ := by
        rw [writeTree_of_notMem hxr, writeTree_of_notMem hxl, Function.update_self]
      refine ⟨rfl, by rw [hx], by rw [hx], ?_, ?_⟩
      · rw [hx]
        have htree : IsTree (writeTree (Function.update hook x ⟨root? l, root? r, par, c⟩)
            (some x) l) (some x) (root? l) l := isTree_writeTree hl
        refine htree.congr fun y hy => ?_
        exact writeTree_of_notMem (hdis y hy)
      · rw [hx]
        exact isTree_writeTree hr

/-! ## Transplanting a node -/

/-- The links to `a` become links to `b`. -/
def renameLink (a b : α) (ptr : Option α) : Option α := if ptr = some a then some b else ptr

def Hook.rename (a b : α) (h : Hook α) : Hook α :=
  ⟨renameLink a b h.left, renameLink a b h.right, renameLink a b h.parent, h.color⟩

/-- A tree whose hooks have been renamed is the renamed tree. -/
theorem IsTree.rename {a b : α} : ∀ {t : RB α} {par ptr : Option α}, IsTree hook par ptr t →
    (∀ y ∈ inorder t, hook' (if y = a then b else y) = (hook y).rename a b) →
      IsTree hook' (renameLink a b par) (renameLink a b ptr) (replace a b t)
  | .nil, par, ptr, h, _ => by
      obtain rfl : ptr = none := h
      rfl
  | .node c l x r, par, ptr, h, hren => by
      obtain ⟨rfl, hpar, hcol, hl, hr⟩ := h
      have hx := hren x (by simp)
      have hsome : renameLink a b (some x) = some (if x = a then b else x) := by
        unfold renameLink
        by_cases hxa : x = a
        · simp [hxa]
        · simp [hxa]
      have hl' := hl.rename (a := a) (b := b) fun y hy => hren y (by simp [hy])
      have hr' := hr.rename (a := a) (b := b) fun y hy => hren y (by simp [hy])
      rw [hsome] at hl' hr' ⊢
      rw [replace]
      refine ⟨rfl, ?_, ?_, ?_, ?_⟩
      · rw [hx, Hook.rename, hpar]
      · rw [hx, Hook.rename, hcol]
      · rw [hx]
        exact hl'
      · rw [hx]
        exact hr'

/-- The memory of one tree: the hooks of all nodes and the root. `nodes`
bounds the depth to which `readTree` follows the links. -/
structure TreeMem (α : Type*) where
  hook : α → Hook α
  root : Option α
  nodes : Nat

/-- The children of `b`, which has the hook of `a`, get it as their parent. -/
def adopt (hook : α → Hook α) (b : α) : α → Hook α :=
  let hook := match (hook b).left with
    | some l => Function.update hook l { hook l with parent := some b }
    | none => hook
  match (hook b).right with
  | some r => Function.update hook r { hook r with parent := some b }
  | none => hook

/-- `RB_TRANSPLANT`: node `b` takes the place of node `a`. -/
def transplant (m : TreeMem α) (a b : α) : TreeMem α :=
  let hook := adopt (Function.update m.hook b (m.hook a)) b
  match (hook b).parent with
  | some p =>
      if (hook p).left = some a then
        { m with hook := Function.update hook p { hook p with left := some b } }
      else { m with hook := Function.update hook p { hook p with right := some b } }
  | none => { m with hook := hook, root := some b }

/-- What the children see. -/
theorem adopt_apply {hook : α → Hook α} {b : α} (hl : (hook b).left ≠ some b)
    (hr : (hook b).right ≠ some b) (y : α) :
    adopt hook b y =
      if y ≠ b ∧ ((hook b).left = some y ∨ (hook b).right = some y) then
        { hook y with parent := some b }
      else hook y := by
  unfold adopt
  cases hleft : (hook b).left with
  | none =>
      cases hright : (hook b).right with
      | none => simp
      | some r =>
          have hrb : r ≠ b := fun h => hr (h ▸ hright)
          simp only
          by_cases hy : y = r
          · subst hy
            simp [hrb]
          · simp [hy, Ne.symm hy]
  | some l =>
      have hlb : l ≠ b := fun h => hl (h ▸ hleft)
      simp only
      rw [Function.update_of_ne (Ne.symm hlb)]
      cases hright : (hook b).right with
      | none =>
          by_cases hy : y = l
          · subst hy
            simp [hlb]
          · simp [hy, Ne.symm hy]
      | some r =>
          have hrb : r ≠ b := fun h => hr (h ▸ hright)
          by_cases hyr : y = r
          · subst hyr
            by_cases hyl : y = l
            · subst hyl
              simp [hrb]
            · simp [hyl, hrb]
          · by_cases hyl : y = l
            · subst hyl
              simp [hyr, hlb]
            · simp [hyr, hyl, Ne.symm hyr, Ne.symm hyl]

theorem renameLink_of_ne {a b : α} {ptr : Option α} (h : ptr ≠ some a) :
    renameLink a b ptr = ptr := if_neg h

theorem renameLink_self (a b : α) : renameLink a b (some a) = some b := if_pos rfl

section Transplant

variable {m : TreeMem α} {a b : α} {t : RB α} (htree : IsTree m.hook none m.root t)
  (hnd : (inorder t).Nodup) (ha : a ∈ inorder t) (hb : b ∉ inorder t)

omit [DecidableEq α] in
include htree hnd ha in
/-- The children of `a` are the nodes that have it as their parent. -/
theorem parent_eq_iff {y : α} (hy : y ∈ inorder t) :
    (m.hook y).parent = some a ↔ (m.hook a).left = some y ∨ (m.hook a).right = some y := by
  constructor
  · intro hpar
    rcases htree.parent hy with ⟨-, hnone⟩ | ⟨z, -, hup, hlink⟩
    · rw [hpar] at hnone
      cases hnone
    · obtain rfl := Option.some.inj (hpar.symm.trans hup)
      exact hlink
  · rintro (hlink | hlink)
    · exact (htree.left hnd ha hlink).2.1
    · exact (htree.right hnd ha hlink).2.1

include htree hnd ha hb in
/-- The hooks after the first writes of a transplant. -/
theorem adopt_transplant :
    adopt (Function.update m.hook b (m.hook a)) b b = m.hook a
      ∧ ∀ y ∈ inorder t, adopt (Function.update m.hook b (m.hook a)) b y =
          { m.hook y with parent := renameLink a b (m.hook y).parent } := by
  have hself : Function.update m.hook b (m.hook a) b = m.hook a := Function.update_self ..
  have hleft : (Function.update m.hook b (m.hook a) b).left ≠ some b := by
    rw [hself]
    exact fun h => hb (htree.left hnd ha h).1
  have hright : (Function.update m.hook b (m.hook a) b).right ≠ some b := by
    rw [hself]
    exact fun h => hb (htree.right hnd ha h).1
  refine ⟨?_, fun y hy => ?_⟩
  · rw [adopt_apply hleft hright, if_neg (by simp), hself]
  · have hyb : y ≠ b := fun h => hb (h ▸ hy)
    have hother : Function.update m.hook b (m.hook a) y = m.hook y := Function.update_of_ne hyb ..
    rw [adopt_apply hleft hright, hself, hother]
    by_cases hpar : (m.hook y).parent = some a
    · rw [if_pos ⟨hyb, (parent_eq_iff htree hnd ha hy).mp hpar⟩, hpar, renameLink_self]
    · rw [if_neg fun h => hpar ((parent_eq_iff htree hnd ha hy).mpr h.2), renameLink_of_ne hpar]

include htree hnd ha in
/-- The node that takes over keeps the links of the old one. -/
theorem rename_self : (m.hook a).rename a b = m.hook a := by
  have hleft : (m.hook a).left ≠ some a := fun h => (htree.left hnd ha h).2.2 rfl
  have hright : (m.hook a).right ≠ some a := fun h => (htree.right hnd ha h).2.2 rfl
  have hpar : (m.hook a).parent ≠ some a := by
    rw [Ne, parent_eq_iff htree hnd ha ha]
    exact fun h => h.elim hleft hright
  rw [Hook.rename, renameLink_of_ne hleft, renameLink_of_ne hright, renameLink_of_ne hpar]

include htree hnd ha hb in
/-- `RB_TRANSPLANT` renames one node of the tree. -/
theorem isTree_transplant :
    IsTree (transplant m a b).hook none (transplant m a b).root (replace a b t) := by
  obtain ⟨hown, hnodes⟩ := adopt_transplant htree hnd ha hb
  have hrename : ∀ {hook' : α → Hook α},
      (∀ y ∈ inorder t, hook' (if y = a then b else y) = (m.hook y).rename a b) →
      IsTree hook' none (renameLink a b m.root) (replace a b t) :=
    fun h => htree.rename h
  -- a node with a link to `a` is the parent of `a`
  have hchild : ∀ y ∈ inorder t, (m.hook y).left = some a ∨ (m.hook y).right = some a →
      (m.hook a).parent = some y := by
    rintro y hy (h | h)
    · exact (htree.left hnd hy h).2.1
    · exact (htree.right hnd hy h).2.1
  rw [transplant, hown]
  rcases htree.parent ha with ⟨hroot, hpar⟩ | ⟨z, hz, hpar, hlink⟩
  · simp only [hpar]
    rw [hroot, renameLink_self] at hrename
    refine hrename fun y hy => ?_
    by_cases hya : y = a
    · subst hya
      rw [if_pos rfl, hown, rename_self htree hnd ha]
    · have hno : ¬ ((m.hook y).left = some a ∨ (m.hook y).right = some a) := fun h => by
        rw [hchild y hy h] at hpar
        cases hpar
      rw [not_or] at hno
      rw [if_neg hya, hnodes y hy, Hook.rename, renameLink_of_ne hno.1, renameLink_of_ne hno.2]
  · have hroot : m.root ≠ some a := fun h => by
      rw [h] at htree
      rw [htree.mem_of_link.2] at hpar
      cases hpar
    have hza : z ≠ a := by
      rintro rfl
      rcases hlink with h | h
      · exact (htree.left hnd hz h).2.2 rfl
      · exact (htree.right hnd hz h).2.2 rfl
    have hzb : z ≠ b := fun h => hb (h ▸ hz)
    rw [renameLink_of_ne hroot] at hrename
    -- the hook of the parent, with the right link replaced
    have hparent : ∀ new : Hook α, new = (m.hook z).rename a b →
        IsTree (Function.update (adopt (Function.update m.hook b (m.hook a)) b) z new) none m.root
          (replace a b t) := by
      intro new hnew
      refine hrename fun y hy => ?_
      by_cases hya : y = a
      · subst hya
        rw [if_pos rfl, Function.update_of_ne (Ne.symm hzb), hown, rename_self htree hnd ha]
      · rw [if_neg hya]
        by_cases hyz : y = z
        · subst hyz
          rw [Function.update_self, hnew]
        · have hno : ¬ ((m.hook y).left = some a ∨ (m.hook y).right = some a) := fun h =>
            hyz (Option.some.inj ((hchild y hy h).symm.trans hpar))
          rw [not_or] at hno
          rw [Function.update_of_ne hyz, hnodes y hy, Hook.rename, renameLink_of_ne hno.1,
            renameLink_of_ne hno.2]
    simp only [hpar, hnodes z hz]
    by_cases hleft : (m.hook z).left = some a
    · rw [if_pos hleft]
      refine hparent _ ?_
      have hright := htree.left_ne_right hnd hz hleft
      rw [Hook.rename, hleft, renameLink_self, renameLink_of_ne hright]
    · rw [if_neg hleft]
      have hright := hlink.resolve_left hleft
      refine hparent _ ?_
      rw [Hook.rename, hright, renameLink_self, renameLink_of_ne hleft]

/-- A transplant writes no other hooks. -/
theorem transplant_nodes (m : TreeMem α) (a b : α) : (transplant m a b).nodes = m.nodes := by
  unfold transplant
  simp only
  split
  · split <;> rfl
  · rfl

end Transplant

/-! ## The operations on a tree in memory -/

namespace TreeMem

/-- The tree that is in the memory. -/
def tree (m : TreeMem α) : RB α := readTree m.hook m.nodes m.root

/-- `RB_INIT` -/
def empty (m : TreeMem α) : TreeMem α := { m with root := none, nodes := 0 }

/-- `RB_INSERT`; a node that meets an equal one is not linked. -/
def insert (cmp : α → α → Ordering) (m : TreeMem α) (x : α) : TreeMem α :=
  match RBTree.insert cmp x m.tree with
  | some t => ⟨writeTree m.hook none t, root? t, m.nodes + 1⟩
  | none => m

/-- `RB_REMOVE` -/
def remove (m : TreeMem α) (x : α) : TreeMem α :=
  let t := RBTree.remove x m.tree
  ⟨writeTree m.hook none t, root? t, m.nodes - 1⟩

/-- The memory holds the tree `t`. -/
structure Holds (m : TreeMem α) (t : RB α) : Prop where
  isTree : IsTree m.hook none m.root t
  nodup : (inorder t).Nodup
  nodes : m.nodes = size t

variable {m : TreeMem α} {t : RB α} {x : α}

omit [DecidableEq α] in
theorem Holds.tree_eq (h : m.Holds t) : m.tree = t := h.isTree.readTree (Nat.le_of_eq h.nodes.symm)

omit [DecidableEq α] in
theorem holds_empty (m : TreeMem α) : m.empty.Holds .nil := ⟨rfl, List.nodup_nil, rfl⟩

theorem Holds.insert {cmp : α → α → Ordering} {t' : RB α} (h : m.Holds t) (hx : x ∉ inorder t)
    (hins : RBTree.insert cmp x t = some t') : (m.insert cmp x).Holds t' := by
  obtain ⟨l, r, hin, hin'⟩ := inorder_insert hins
  have hperm : (inorder t').Perm (x :: inorder t) := by
    rw [hin, hin']
    exact List.perm_middle
  have hnd : (inorder t').Nodup := hperm.nodup_iff.mpr (List.nodup_cons.mpr ⟨hx, h.nodup⟩)
  have heq : m.insert cmp x = ⟨writeTree m.hook none t', root? t', m.nodes + 1⟩ := by
    rw [TreeMem.insert, h.tree_eq, hins]
  rw [heq]
  refine ⟨isTree_writeTree hnd, hnd, ?_⟩
  rw [h.nodes, size, size, hperm.length_eq, List.length_cons]

theorem Holds.remove (h : m.Holds t) (hx : x ∈ inorder t) :
    (m.remove x).Holds (RBTree.remove x t) := by
  obtain ⟨l, r, hin, hin'⟩ := inorder_remove hx
  have hperm : (x :: inorder (RBTree.remove x t)).Perm (inorder t) := by
    rw [hin, hin']
    exact List.perm_middle.symm
  have hnd := (List.nodup_cons.mp (hperm.nodup_iff.mpr h.nodup)).2
  have heq : m.remove x = ⟨writeTree m.hook none (RBTree.remove x t),
      root? (RBTree.remove x t), m.nodes - 1⟩ := by
    rw [TreeMem.remove, h.tree_eq]
  rw [heq]
  refine ⟨isTree_writeTree hnd, hnd, ?_⟩
  rw [h.nodes, size, size, ← hperm.length_eq, List.length_cons, Nat.add_sub_cancel]

theorem Holds.transplant {a b : α} (h : m.Holds t) (ha : a ∈ inorder t) (hb : b ∉ inorder t) :
    (transplant m a b).Holds (replace a b t) := by
  refine ⟨isTree_transplant h.isTree h.nodup ha hb, ?_, ?_⟩
  · obtain ⟨l, r, hin⟩ := List.append_of_mem ha
    have hperm : (a :: inorder (replace a b t)).Perm (b :: inorder t) := by
      rw [inorder_replace hin h.nodup, hin]
      refine (List.Perm.cons a List.perm_middle).trans ?_
      refine (List.Perm.swap b a _).trans (List.Perm.cons b List.perm_middle.symm)
    have hnd := hperm.nodup_iff.mpr (List.nodup_cons.mpr ⟨hb, h.nodup⟩)
    exact (List.nodup_cons.mp hnd).2
  · rw [transplant_nodes, h.nodes, size, size, inorder_replace_eq, List.length_map]

/-- The hook of a task that is not in the tree can be overwritten. -/
theorem Holds.update (h : m.Holds t) (hx : x ∉ inorder t) (new : Hook α) :
    TreeMem.Holds { m with hook := Function.update m.hook x new } t := by
  refine ⟨h.isTree.congr fun y hy => ?_, h.nodup, h.nodes⟩
  exact Function.update_of_ne (fun heq : y = x => hx (heq ▸ hy)) ..

end TreeMem

end RBTree
