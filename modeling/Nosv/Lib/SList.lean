import Mathlib.Data.List.Nodup
import Mathlib.Logic.Function.Basic

/-!
# Singly linked lists

Nodes with one link to the next one, and a list as a pointer to its first
node; the last node is linked to nothing. `IsSList next head l` says that
the nodes `l`, in this order, are the list that begins at `head`. A write
to the link of a node that is not in the list leaves it alone
(`IsSList.frame`).
-/

namespace SList

variable {α : Type*}

def IsSList (next : α → Option α) : Option α → List α → Prop
  | head, [] => head = none
  | head, x :: l => head = some x ∧ IsSList next (next x) l

variable {next next' : α → Option α} {head : Option α} {x y : α} {l l₁ l₂ : List α}

theorem IsSList.frame : ∀ {head : Option α} {l : List α}, IsSList next head l → (∀ x ∈ l, next' x = next x) →
    IsSList next' head l
  | _, [], h, _ => h
  | _, x :: _, ⟨hhead, hrest⟩, hsame => by
      refine ⟨hhead, ?_⟩
      rw [hsame x List.mem_cons_self]
      exact hrest.frame fun y hy => hsame y (List.mem_cons_of_mem x hy)

/-- The list behind its first node -/
theorem IsSList.tail (h : IsSList next head (x :: l)) : IsSList next (next x) l := h.2

variable [DecidableEq α]

/-- A node is put in front. -/
theorem IsSList.push (h : IsSList next head l) (hx : x ∉ l) :
    IsSList (Function.update next x head) (some x) (x :: l) := by
  refine ⟨rfl, ?_⟩
  rw [Function.update_self]
  refine h.frame fun y hy => ?_
  rw [Function.update_of_ne]
  rintro rfl
  exact hx hy

/-- The node behind another one is taken out. -/
theorem IsSList.removeAfter : ∀ {head : Option α} {l₁ : List α}, IsSList next head (l₁ ++ x :: y :: l₂) →
    (l₁ ++ x :: y :: l₂).Nodup →
    next x = some y ∧ IsSList (Function.update next x (next y)) head (l₁ ++ x :: l₂)
  | _, [], ⟨hhead, hnext, hrest⟩, hnodup => by
      refine ⟨hnext, hhead, ?_⟩
      rw [Function.update_self]
      refine hrest.frame fun z hz => ?_
      rw [Function.update_of_ne]
      rintro rfl
      exact (List.nodup_cons.mp hnodup).1 (List.mem_cons_of_mem y hz)
  | _, a :: l₁, ⟨hhead, hrest⟩, hnodup => by
      obtain ⟨hnotin, hnodup⟩ := List.nodup_cons.mp hnodup
      obtain ⟨hnext, hremoved⟩ := hrest.removeAfter hnodup
      refine ⟨hnext, hhead, ?_⟩
      rw [Function.update_of_ne]
      · exact hremoved
      · rintro rfl
        exact hnotin (List.mem_append_right l₁ List.mem_cons_self)

omit [DecidableEq α] in
theorem IsSList.unique : ∀ {head : Option α} {l l' : List α}, IsSList next head l → IsSList next head l' → l = l'
  | _, [], [], _, _ => rfl
  | _, [], _ :: _, h, h' => nomatch h.symm.trans h'.1
  | _, _ :: _, [], h, h' => nomatch h'.symm.trans h.1
  | _, x :: l, y :: l', ⟨hx, hl⟩, ⟨hy, hl'⟩ => by
      obtain rfl := Option.some.inj (hx.symm.trans hy)
      rw [hl.unique hl']

/-! ## Nodes in places -/

variable {ι : Type*} {place place' : α → Option ι} {i j : ι}

/-- The list has the nodes of place `i`. -/
structure Chain (next : α → Option α) (place : α → Option ι) (i : ι) (head : Option α) (l : List α) : Prop where
  list : IsSList next head l
  nodup : l.Nodup
  mem : ∀ x, x ∈ l ↔ place x = some i

/-- All nodes of place `i` go to `q`. -/
def moveAll [DecidableEq ι] (place : α → Option ι) (i : ι) (q : Option ι) : α → Option ι :=
  fun x => if place x = some i then q else place x

omit [DecidableEq α] in
/-- Writes to other nodes, and moves between other places -/
theorem Chain.frame (h : Chain next place i head l) (hsame : ∀ x, place x = some i → next' x = next x)
    (hplace : ∀ x, place' x = some i ↔ place x = some i) : Chain next' place' i head l :=
  ⟨h.list.frame fun x hx => hsame x ((h.mem x).mp hx), h.nodup, fun x => (h.mem x).trans (hplace x).symm⟩

omit [DecidableEq α] in
theorem Chain.place_head (h : Chain next place i (some x) l) : place x = some i := by
  cases l with
  | nil => nomatch h.list
  | cons y l =>
      obtain rfl := Option.some.inj h.list.1
      exact (h.mem x).mp List.mem_cons_self

theorem Chain.push (h : Chain next place i head l) (hx : place x ≠ some i) :
    Chain (Function.update next x head) (Function.update place x (some i)) i (some x) (x :: l) := by
  have hnotin : x ∉ l := fun hin => hx ((h.mem x).mp hin)
  refine ⟨h.list.push hnotin, List.nodup_cons.mpr ⟨hnotin, h.nodup⟩, fun y => ?_⟩
  rw [List.mem_cons, Function.update_apply]
  by_cases hy : y = x
  · simp [hy]
  · simp [hy, h.mem y]

theorem Chain.pop {q : Option ι} (h : Chain next place i (some x) l) (hq : q ≠ some i) :
    ∃ l', l = x :: l' ∧ Chain next (Function.update place x q) i (next x) l' := by
  cases l with
  | nil => nomatch h.list
  | cons y l =>
      obtain rfl := Option.some.inj h.list.1
      obtain ⟨hnotin, hnodup⟩ := List.nodup_cons.mp h.nodup
      refine ⟨l, rfl, h.list.2, hnodup, fun y => ?_⟩
      rw [Function.update_apply]
      by_cases hy : y = x
      · simp [hy, hnotin, hq]
      · simp [hy, ← h.mem y]

section MoveAll

variable [DecidableEq ι]

omit [DecidableEq α] in
theorem Chain.moveAll_to (h : Chain next place i head l) (hnone : ∀ x, place x ≠ some j) :
    Chain next (moveAll place i (some j)) j head l := by
  refine ⟨h.list, h.nodup, fun x => (h.mem x).trans ?_⟩
  unfold moveAll
  split
  · next hx => exact iff_of_true hx rfl
  · next hx => exact iff_of_false hx (hnone x)

omit [DecidableEq α] in
theorem Chain.moveAll_from {q : Option ι} (hq : q ≠ some i) : Chain next (moveAll place i q) i none [] := by
  refine ⟨rfl, List.nodup_nil, fun x => iff_of_false List.not_mem_nil ?_⟩
  unfold moveAll
  split
  · exact hq
  · next hx => exact hx

omit [DecidableEq α] in
theorem moveAll_other {k : ι} {q : Option ι} (hi : k ≠ i) (hq : q ≠ some k) :
    moveAll place i q x = some k ↔ place x = some k := by
  unfold moveAll
  split
  · next hx =>
      rw [hx]
      exact iff_of_false hq fun heq => hi (Option.some.inj heq).symm
  · exact Iff.rfl

end MoveAll

end SList
