import Mathlib.Data.List.Basic
import Mathlib.Data.List.Nodup

/-!
# Red-black trees with visible shape

The intrusive red-black tree of the BSD `tree.h` macros, as a functional
tree. Insertion and removal perform exactly the rotations and recolourings
of `RB_INSERT_COLOR` and `RB_REMOVE_COLOR`, because the clients of this
library read the child links of a node and not only the order of its
elements. The walk up the parent links becomes a walk along a path of
`Frame`s.

Two families of results are exported: what an operation does to the
in-order sequence (`inorder_insert`, `inorder_remove`, `inorder_replace`),
which no rotation can disturb, and what a removed node keeps in its left
link (`leftLink_min`: nothing, when it was the leftmost node).
-/

namespace RBTree

inductive Color where
  | red
  | black
  deriving DecidableEq, Repr

/-- A tree; every node carries its colour and its element. -/
inductive RB (α : Type*) where
  | nil
  | node (c : Color) (l : RB α) (x : α) (r : RB α)
  deriving DecidableEq, Repr

/-- One step of a path from a subtree up to the root: the parent with its
other child. `left` means that the hole is the parent's left child. -/
inductive Frame (α : Type*) where
  | left (c : Color) (x : α) (r : RB α)
  | right (c : Color) (l : RB α) (x : α)
  deriving Repr

variable {α : Type*}

open RB Color

/-! ## Shape -/

def isRed : RB α → Bool
  | node red _ _ _ => true
  | _ => false

def blacken : RB α → RB α
  | nil => nil
  | node _ l x r => node black l x r

def root? : RB α → Option α
  | nil => none
  | node _ _ x _ => some x

def Frame.color : Frame α → Color
  | .left c _ _ => c
  | .right c _ _ => c

/-- Close a path around the subtree in its hole. -/
def plug : RB α → List (Frame α) → RB α
  | t, [] => t
  | t, .left c x r :: p => plug (node c t x r) p
  | t, .right c l x :: p => plug (node c l x t) p

def inorder : RB α → List α
  | nil => []
  | node _ l x r => inorder l ++ x :: inorder r

/-- The leftmost element (`RB_MIN`). -/
def min? : RB α → Option α
  | nil => none
  | node _ nil x _ => some x
  | node _ l _ _ => min? l

/-- The rightmost element (`RB_MAX`). -/
def max? : RB α → Option α
  | nil => none
  | node _ _ x nil => some x
  | node _ _ _ r => max? r

def size (t : RB α) : Nat := (inorder t).length

/-! ## Insertion -/

/-- `RB_FIND`: `f y` compares the wanted element with `y`. -/
def find (f : α → Ordering) : RB α → Option α
  | nil => none
  | node _ l y r =>
      match f y with
      | .lt => find f l
      | .gt => find f r
      | .eq => some y

/-- The descent of `RB_INSERT` to the free link; `none` when it meets an
equal element. -/
def descend (f : α → Ordering) : RB α → List (Frame α) → Option (List (Frame α))
  | nil, p => some p
  | node c l y r, p =>
      match f y with
      | .lt => descend f l (.left c y r :: p)
      | .gt => descend f r (.right c l y :: p)
      | .eq => none

/-- `RB_INSERT_COLOR`: the subtree in the hole has a red root. -/
def insertColor : RB α → List (Frame α) → RB α
  | t, [] => blacken t
  | t, [f] => blacken (plug t [f])
  | t, f :: g :: p =>
      if f.color = black then blacken (plug t (f :: g :: p))
      else match f, g with
        | .left _ px pr, .left _ gx gr =>
            if isRed gr then
              insertColor (node red (node black t px pr) gx (blacken gr)) p
            else
              blacken (plug (node black t px (node red pr gx gr)) p)
        | .right _ pl px, .left _ gx gr =>
            if isRed gr then
              insertColor (node red (node black pl px t) gx (blacken gr)) p
            else match t with
              | nil => blacken (plug t (f :: g :: p))
              | node _ el ex er =>
                  blacken (plug (node black (node red pl px el) ex (node red er gx gr)) p)
        | .right _ pl px, .right _ gl gx =>
            if isRed gl then
              insertColor (node red (blacken gl) gx (node black pl px t)) p
            else
              blacken (plug (node black (node red gl gx pl) px t) p)
        | .left _ px pr, .right _ gl gx =>
            if isRed gl then
              insertColor (node red (blacken gl) gx (node black t px pr)) p
            else match t with
              | nil => blacken (plug t (f :: g :: p))
              | node _ el ex er =>
                  blacken (plug (node black (node red gl gx el) ex (node red er px pr)) p)

/-- `RB_INSERT`: `none` when an equal element is already there. -/
def insert (cmp : α → α → Ordering) (x : α) (t : RB α) : Option (RB α) :=
  (descend (cmp x) t []).map (insertColor (node red nil x nil))

/-! ## Removal -/

/-- The node that holds `x`: its colour, children and path to the root. -/
def locate [DecidableEq α] (x : α) :
    RB α → List (Frame α) → Option (Color × RB α × RB α × List (Frame α))
  | nil, _ => none
  | node c l y r, p =>
      if y = x then some (c, l, r, p)
      else match locate x l (.left c y r :: p) with
        | some z => some z
        | none => locate x r (.right c l y :: p)

/-- The leftmost node: its colour, element, right child and path. -/
def minPath : RB α → List (Frame α) → Option (Color × α × RB α × List (Frame α))
  | nil, _ => none
  | node c nil x r, p => some (c, x, r, p)
  | node c (node c' l' x' r') x r, p => minPath (node c' l' x' r') (.left c x r :: p)

/-- The loop body of `RB_REMOVE_COLOR` for a left child `t` with a black
sibling `s`. `(true, u)` means that the loop goes on from the parent,
`(false, u)` that it breaks. -/
def fixLeft (pc : Color) (t : RB α) (px : α) : RB α → Bool × RB α
  | nil => (true, node pc t px nil)
  | node _ sl sx sr =>
      if isRed sr then
        (false, node pc (node black t px sl) sx (blacken sr))
      else match sl with
        | node red a y b => (false, node pc (node black t px a) y (node black b sx sr))
        | _ => (true, node pc t px (node red sl sx sr))

/-- The mirror image, for a right child. -/
def fixRight (pc : Color) (px : α) (t : RB α) : RB α → Bool × RB α
  | nil => (true, node pc nil px t)
  | node _ sl sx sr =>
      if isRed sl then
        (false, node pc (blacken sl) sx (node black sr px t))
      else match sr with
        | node red a y b => (false, node pc (node black sl sx a) y (node black b px t))
        | _ => (true, node pc (node red sl sx sr) px t)

/-- `RB_REMOVE_COLOR`. With a red sibling the rotation makes the parent
red, so the following iteration is the last one. -/
def removeColor : RB α → List (Frame α) → RB α
  | t, [] => blacken t
  | t, f :: p =>
      if isRed t then plug (blacken t) (f :: p)
      else match f with
        | .left _ px (node red sl sx sr) =>
            match fixLeft red t px sl with
            | (true, u) => blacken (plug (node black (blacken u) sx sr) p)
            | (false, u) => blacken (plug (node black u sx sr) p)
        | .left pc px s =>
            match fixLeft pc t px s with
            | (true, u) => removeColor u p
            | (false, u) => blacken (plug u p)
        | .right _ (node red sl sx sr) px =>
            match fixRight red px t sr with
            | (true, u) => blacken (plug (node black sl sx (blacken u)) p)
            | (false, u) => blacken (plug (node black sl sx u) p)
        | .right pc s px =>
            match fixRight pc px t s with
            | (true, u) => removeColor u p
            | (false, u) => blacken (plug u p)

/-- Unlink a node of colour `c` whose place is taken by `child`. -/
def unlink (c : Color) (child : RB α) (p : List (Frame α)) : RB α :=
  if c = black then removeColor child p else plug child p

/-- `RB_REMOVE`. With two children the successor takes the node's place. -/
def remove [DecidableEq α] (x : α) (t : RB α) : RB α :=
  match locate x t [] with
  | none => t
  | some (c, nil, r, p) => unlink c r p
  | some (c, l, nil, p) => unlink c l p
  | some (c, l, r, p) =>
      match min? r with
      | none => t
      | some y =>
          match minPath r (.right c l y :: p) with
          | none => t
          | some (c', _, child, p') => unlink c' child p'

/-- The left link of the node that holds `x`. -/
def leftLink [DecidableEq α] (x : α) (t : RB α) : Option α :=
  match locate x t [] with
  | none => none
  | some (_, l, _, _) => root? l

/-- Put `y` in the place of `x` (`RB_TRANSPLANT`, or a change of the
payload of a node). -/
def replace [DecidableEq α] (x y : α) : RB α → RB α
  | nil => nil
  | node c l z r => node c (replace x y l) (if z = x then y else z) (replace x y r)

/-! ## The in-order sequence around a hole -/

def before : List (Frame α) → List α
  | [] => []
  | .left _ _ _ :: p => before p
  | .right _ l x :: p => before p ++ (inorder l ++ [x])

def after : List (Frame α) → List α
  | [] => []
  | .left _ x r :: p => x :: inorder r ++ after p
  | .right _ _ _ :: p => after p

@[simp] theorem inorder_nil : inorder (nil : RB α) = [] := rfl

@[simp] theorem inorder_node (c : Color) (l : RB α) (x : α) (r : RB α) :
    inorder (node c l x r) = inorder l ++ x :: inorder r := rfl

@[simp] theorem inorder_blacken (t : RB α) : inorder (blacken t) = inorder t := by
  cases t <;> rfl

@[simp] theorem inorder_plug :
    ∀ (t : RB α) (p : List (Frame α)),
      inorder (plug t p) = before p ++ inorder t ++ after p
  | t, [] => by simp [plug, before, after]
  | t, .left c x r :: p => by simp [plug, before, after, inorder_plug _ p]
  | t, .right c l x :: p => by simp [plug, before, after, inorder_plug _ p]

/-! ## Insertion and the in-order sequence -/

/-- The comparison agrees with the order of the sequence: it goes left
from everything after an element that it goes left from, and right from
everything before one that it goes right from. -/
def Ordered (f : α → Ordering) (l : List α) : Prop :=
  l.Pairwise fun a b => (f a = .lt → f b = .lt) ∧ (f b = .gt → f a = .gt)

theorem descend_split {f : α → Ordering} :
    ∀ {t : RB α} {p p' : List (Frame α)}, descend f t p = some p' →
      ∃ l r, inorder t = l ++ r ∧ before p' = before p ++ l ∧ after p' = r ++ after p
        ∧ (Ordered f (inorder t) → (∀ y ∈ l, f y = .gt) ∧ ∀ y ∈ r, f y = .lt)
  | nil, p, p', h => by
      obtain rfl := Option.some.inj h
      exact ⟨[], [], rfl, by simp, rfl, by simp⟩
  | node c l y r, p, p', h => by
      rw [descend] at h
      split at h
      · rename_i hy
        obtain ⟨l₁, r₁, hin, hb, ha, hord⟩ := descend_split h
        refine ⟨l₁, r₁ ++ y :: inorder r, by simp [hin], by simpa [before] using hb,
          by simpa [after] using ha, fun ho => ?_⟩
        obtain ⟨hleft, hright, -⟩ := List.pairwise_append.mp ho
        obtain ⟨hgt, hlt⟩ := hord hleft
        refine ⟨hgt, fun z hz => ?_⟩
        rcases List.mem_append.mp hz with hz | hz
        · exact hlt z hz
        · rcases List.mem_cons.mp hz with rfl | hz
          · exact hy
          · exact ((List.pairwise_cons.mp hright).1 z hz).1 hy
      · rename_i hy
        obtain ⟨l₁, r₁, hin, hb, ha, hord⟩ := descend_split h
        refine ⟨inorder l ++ y :: l₁, r₁, by simp [hin], by simpa [before] using hb,
          by simpa [after] using ha, fun ho => ?_⟩
        obtain ⟨-, hright, hcross⟩ := List.pairwise_append.mp ho
        obtain ⟨hgt, hlt⟩ := hord (List.pairwise_cons.mp hright).2
        refine ⟨fun z hz => ?_, hlt⟩
        rcases List.mem_append.mp hz with hz | hz
        · exact (hcross z hz y List.mem_cons_self).2 hy
        · rcases List.mem_cons.mp hz with rfl | hz
          · exact hy
          · exact hgt z hz
      · cases h

theorem inorder_insertColor (t : RB α) (p : List (Frame α)) :
    inorder (insertColor t p) = before p ++ inorder t ++ after p := by
  fun_induction insertColor t p <;> simp_all [before, after]

/-- Insertion puts the new element into the sequence and moves nothing
else; into an ordered sequence, where it belongs. -/
theorem inorder_insert_ordered {cmp : α → α → Ordering} {x : α} {t t' : RB α}
    (h : insert cmp x t = some t') :
    ∃ l r, inorder t = l ++ r ∧ inorder t' = l ++ x :: r
      ∧ (Ordered (cmp x) (inorder t) → (∀ y ∈ l, cmp x y = .gt) ∧ ∀ y ∈ r, cmp x y = .lt) := by
  rw [insert, Option.map_eq_some_iff] at h
  obtain ⟨p, hp, rfl⟩ := h
  obtain ⟨l, r, hin, hb, ha, hord⟩ := descend_split hp
  refine ⟨l, r, hin, ?_, hord⟩
  rw [inorder_insertColor, hb, ha]
  simp [before, after]

theorem inorder_insert {cmp : α → α → Ordering} {x : α} {t t' : RB α}
    (h : insert cmp x t = some t') :
    ∃ l r, inorder t = l ++ r ∧ inorder t' = l ++ x :: r := by
  obtain ⟨l, r, hin, hnew, -⟩ := inorder_insert_ordered h
  exact ⟨l, r, hin, hnew⟩

/-- Insertion fails exactly when the search finds an equal element. -/
theorem insert_eq_none_iff {cmp : α → α → Ordering} {x : α} {t : RB α} :
    insert cmp x t = none ↔ (find (cmp x) t).isSome := by
  rw [insert, Option.map_eq_none_iff]
  generalize ([] : List (Frame α)) = p
  induction t generalizing p with
  | nil => simp [descend, find]
  | node c l y r ihl ihr =>
      rw [descend, find]
      split
      · exact ihl _
      · exact ihr _
      · simp

theorem find_mem {f : α → Ordering} {y : α} :
    ∀ {t : RB α}, find f t = some y → y ∈ inorder t ∧ f y = .eq
  | node c l z r, h => by
      rw [find] at h
      split at h
      · exact (find_mem h).imp_left fun hm => by simp [hm]
      · exact (find_mem h).imp_left fun hm => by simp [hm]
      · rename_i heq
        obtain rfl := Option.some.inj h
        exact ⟨by simp, heq⟩

/-- In an ordered tree the search misses no equal element. -/
theorem find_isSome_of_mem {f : α → Ordering} {y : α} :
    ∀ {t : RB α}, Ordered f (inorder t) → y ∈ inorder t → f y = .eq → (find f t).isSome
  | node c l z r, hord, hy, heq => by
      obtain ⟨hleft, hright, hcross⟩ := List.pairwise_append.mp hord
      obtain ⟨hz, hright⟩ := List.pairwise_cons.mp hright
      rw [inorder_node, List.mem_append, List.mem_cons] at hy
      rw [find]
      split
      · rename_i hlt
        rcases hy with hy | rfl | hy
        · exact find_isSome_of_mem hleft hy heq
        · rw [heq] at hlt
          cases hlt
        · rw [(hz y hy).1 hlt] at heq
          cases heq
      · rename_i hgt
        rcases hy with hy | rfl | hy
        · rw [(hcross y hy z List.mem_cons_self).2 hgt] at heq
          cases heq
        · rw [heq] at hgt
          cases hgt
        · exact find_isSome_of_mem hright hy heq
      · rfl

/-! ## Removal and the in-order sequence -/

theorem inorder_of_fixLeft {pc : Color} {t : RB α} {px : α} {s u : RB α} {b : Bool}
    (h : fixLeft pc t px s = (b, u)) : inorder u = inorder t ++ px :: inorder s := by
  obtain rfl : (fixLeft pc t px s).2 = u := congrArg Prod.snd h
  unfold fixLeft
  split
  · rfl
  · split
    · simp
    · split <;> simp

theorem inorder_of_fixRight {pc : Color} {t : RB α} {px : α} {s u : RB α} {b : Bool}
    (h : fixRight pc px t s = (b, u)) : inorder u = inorder s ++ px :: inorder t := by
  obtain rfl : (fixRight pc px t s).2 = u := congrArg Prod.snd h
  unfold fixRight
  split
  · rfl
  · split
    · simp
    · split <;> simp

theorem inorder_removeColor (t : RB α) (p : List (Frame α)) :
    inorder (removeColor t p) = before p ++ inorder t ++ after p := by
  fun_induction removeColor t p with
  | case1 t => simp [before, after]
  | case2 t f p _ => simp
  | case3 t p _ px sl sx sr _ u hu | case4 t p _ px sl sx sr _ u hu
  | case6 t p _ pc px s _ u hu =>
      simp [before, after, inorder_of_fixLeft hu]
  | case5 t p _ pc px s _ u hu ih =>
      simp [before, after, inorder_of_fixLeft hu, ih]
  | case7 t p _ sl sx sr px _ u hu | case8 t p _ sl sx sr px _ u hu
  | case10 t p _ pc s px _ u hu =>
      simp [before, after, inorder_of_fixRight hu]
  | case9 t p _ pc s px _ u hu ih =>
      simp [before, after, inorder_of_fixRight hu, ih]

theorem inorder_unlink (c : Color) (child : RB α) (p : List (Frame α)) :
    inorder (unlink c child p) = before p ++ inorder child ++ after p := by
  unfold unlink
  split
  · exact inorder_removeColor child p
  · exact inorder_plug child p

theorem locate_split [DecidableEq α] {x : α} :
    ∀ {t : RB α} {p : List (Frame α)} {c : Color} {l r : RB α} {p' : List (Frame α)},
      locate x t p = some (c, l, r, p') →
      before p' ++ (inorder l ++ x :: inorder r) ++ after p' =
        before p ++ inorder t ++ after p
  | node c₀ l₀ y r₀, p, c, l, r, p', h => by
      rw [locate] at h
      split at h
      · rename_i hy
        simp only [Option.some.injEq, Prod.mk.injEq] at h
        obtain ⟨rfl, rfl, rfl, rfl⟩ := h
        simp [hy]
      · cases hl : locate x l₀ (.left c₀ y r₀ :: p) with
        | some z =>
            rw [hl] at h
            obtain rfl := Option.some.inj h
            have := locate_split hl
            simpa [before, after] using this
        | none =>
            rw [hl] at h
            have := locate_split h
            simpa [before, after] using this

theorem locate_isSome [DecidableEq α] {x : α} :
    ∀ {t : RB α} {p : List (Frame α)}, x ∈ inorder t → (locate x t p).isSome
  | node c l y r, p, h => by
      rw [locate]
      split
      · rfl
      · rename_i hy
        simp only [inorder_node, List.mem_append, List.mem_cons] at h
        cases hl : locate x l (.left c y r :: p) with
        | some z => rfl
        | none =>
            rcases h with h | rfl | h
            · have := locate_isSome (p := .left c y r :: p) h
              rw [hl] at this
              cases this
            · exact absurd rfl hy
            · exact locate_isSome h

theorem minPath_split :
    ∀ {t : RB α} {p : List (Frame α)} {c : Color} {x : α} {r : RB α}
      {p' : List (Frame α)}, minPath t p = some (c, x, r, p') →
      before p' = before p ∧ inorder t ++ after p = x :: inorder r ++ after p'
        ∧ min? t = some x
  | node c₀ nil x₀ r₀, p, c, x, r, p', h => by
      simp only [minPath, Option.some.injEq, Prod.mk.injEq] at h
      obtain ⟨rfl, rfl, rfl, rfl⟩ := h
      exact ⟨rfl, by simp, rfl⟩
  | node c₀ (node c₁ l₁ x₁ r₁) x₀ r₀, p, c, x, r, p', h => by
      rw [minPath] at h
      obtain ⟨hb, ha, hm⟩ := minPath_split h
      refine ⟨by simpa [before] using hb, ?_, by simpa [min?] using hm⟩
      simpa [after] using ha

theorem minPath_isSome :
    ∀ (c : Color) (l : RB α) (x : α) (r : RB α) (p : List (Frame α)),
      (minPath (node c l x r) p).isSome
  | _, nil, _, _, _ => rfl
  | _, node c' l' x' r', _, _, _ => by
      rw [minPath]
      exact minPath_isSome c' l' x' r' _

/-- Removal takes the element out of the sequence and moves nothing else. -/
theorem inorder_remove [DecidableEq α] {x : α} {t : RB α} (hx : x ∈ inorder t) :
    ∃ l r, inorder t = l ++ x :: r ∧ inorder (remove x t) = l ++ r := by
  obtain ⟨⟨c, l, r, p⟩, hloc⟩ := Option.isSome_iff_exists.mp (locate_isSome (p := []) hx)
  have hsplit := locate_split hloc
  simp only [before, after, List.nil_append, List.append_nil] at hsplit
  refine ⟨before p ++ inorder l, inorder r ++ after p, by simp [← hsplit], ?_⟩
  unfold remove
  rw [hloc]
  cases l with
  | nil => simp [inorder_unlink]
  | node c₁ l₁ x₁ r₁ =>
      cases r with
      | nil => simp [inorder_unlink]
      | node c₂ l₂ x₂ r₂ =>
          -- the successor `y` moves into the removed node's place
          obtain ⟨⟨c', y, child, p'⟩, hpath⟩ := Option.isSome_iff_exists.mp
            (minPath_isSome c₂ l₂ x₂ r₂ [])
          obtain ⟨-, -, hmin⟩ := minPath_split hpath
          obtain ⟨⟨c'', y', child', p''⟩, hpath'⟩ := Option.isSome_iff_exists.mp
            (minPath_isSome c₂ l₂ x₂ r₂ (.right c (node c₁ l₁ x₁ r₁) y :: p))
          obtain ⟨hb, ha, hmin'⟩ := minPath_split hpath'
          rw [hmin] at hmin'
          obtain rfl := Option.some.inj hmin'
          simp only [hmin, hpath', inorder_unlink, hb]
          simp only [before, after] at ha ⊢
          simp only [List.append_assoc, List.cons_append, List.nil_append] at ha ⊢
          rw [← ha]

theorem min?_eq_head? : ∀ t : RB α, min? t = (inorder t).head?
  | nil => rfl
  | node _ nil _ _ => rfl
  | node _ (node c l x r) y s => by
      rw [min?, min?_eq_head?]
      · simp [List.head?_append]
      · intro h; cases h

theorem max?_eq_getLast? : ∀ t : RB α, max? t = (inorder t).getLast?
  | nil => rfl
  | node _ _ _ nil => by simp [max?]
  | node _ s y (node c l x r) => by
      rw [max?, max?_eq_getLast?]
      · simp [List.getLast?_append, List.getLast?_cons]
      · intro h; cases h

theorem min?_mem {t : RB α} {x : α} (h : min? t = some x) : x ∈ inorder t := by
  rw [min?_eq_head?] at h
  exact List.mem_of_head? h

theorem max?_mem {t : RB α} {x : α} (h : max? t = some x) : x ∈ inorder t := by
  rw [max?_eq_getLast?] at h
  exact List.mem_of_getLast? h

theorem locate_min [DecidableEq α] {x : α} :
    ∀ {t : RB α} {p : List (Frame α)}, (inorder t).Nodup → min? t = some x →
      ∃ c r p', locate x t p = some (c, nil, r, p')
  | node c nil y r, p, _, h => by
      obtain rfl := Option.some.inj h
      exact ⟨c, r, p, by simp [locate]⟩
  | node c (node c₁ l₁ x₁ r₁) y r, p, hnd, h => by
      have hmin : min? (node c₁ l₁ x₁ r₁) = some x := by simpa [min?] using h
      have hmem := min?_mem hmin
      rw [inorder_node, List.nodup_append] at hnd
      have hne : y ≠ x := fun hyx => hnd.2.2 x hmem y (by simp) hyx.symm
      obtain ⟨c', r', p', hloc⟩ := locate_min (p := .left c y r :: p) hnd.1 hmin
      exact ⟨c', r', p', by rw [locate, if_neg hne, hloc]⟩

/-- The leftmost node has no left child, so it keeps no left link when it
is unlinked. -/
theorem leftLink_min [DecidableEq α] {x : α} {t : RB α} (hnd : (inorder t).Nodup)
    (h : min? t = some x) : leftLink x t = none := by
  obtain ⟨c, r, p, hloc⟩ := locate_min (p := []) hnd h
  simp [leftLink, hloc, root?]

/-! ## Replacement -/

theorem inorder_replace_eq [DecidableEq α] (x y : α) :
    ∀ t : RB α, inorder (replace x y t) =
      (inorder t).map fun z => if z = x then y else z
  | nil => rfl
  | node c l z r => by
      simp [replace, inorder_replace_eq x y l, inorder_replace_eq x y r]

/-- Replacing one occurrence leaves everything around it in place. -/
theorem inorder_replace [DecidableEq α] {x y : α} {t : RB α} {l r : List α}
    (hsplit : inorder t = l ++ x :: r) (hnd : (inorder t).Nodup) :
    inorder (replace x y t) = l ++ y :: r := by
  have hmap : ∀ {k : List α}, x ∉ k → (k.map fun z => if z = x then y else z) = k := by
    intro k hk
    refine (List.map_congr_left fun z hz => ?_).trans (List.map_id k)
    exact if_neg fun h : z = x => hk (h ▸ hz)
  rw [hsplit, List.nodup_append, List.nodup_cons] at hnd
  rw [inorder_replace_eq, hsplit, List.map_append, List.map_cons, if_pos rfl,
    hmap (fun h => hnd.2.2 x h x (by simp) rfl), hmap hnd.2.1.1]

end RBTree
