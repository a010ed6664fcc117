import Mathlib.Data.Multiset.MapFold
import Mathlib.Data.Multiset.Range
import Mathlib.Data.Finset.Fold
import Mathlib.Logic.Equiv.Basic
import Mathlib.Logic.Function.Basic
import Mathlib.Tactic.Common

/-!
# Heaps in level order

A complete binary tree with `n` elements as the function `a` from the
positions `1` to `n`: the children of position `i` are `2 * i` and
`2 * i + 1`, so that its parent is `i / 2`. Nothing is said about `a` at any
other position.

An element that is moved up or down by exchanges with its neighbours breaks
the order in one place only, which is what `UpOrdered` and `DownOrdered` are
about.
-/

namespace LevelHeap

variable {α : Type*} {le : α → α → Prop} {a b : Nat → α} {n h i j c : Nat}

/-- The elements of the positions `1` to `n` -/
def contents (a : Nat → α) (n : Nat) : Multiset α := (Multiset.range n).map fun i => a (i + 1)

/-- The elements with those of two positions exchanged -/
def swapAt (a : Nat → α) (i j : Nat) : Nat → α := fun k => a (Equiv.swap i j k)

@[simp] theorem swapAt_left : swapAt a i j i = a j := by simp [swapAt]

@[simp] theorem swapAt_right : swapAt a i j j = a i := by simp [swapAt]

theorem swapAt_of_ne (hi : c ≠ i) (hj : c ≠ j) : swapAt a i j c = a c := by
  rw [swapAt, Equiv.swap_apply_of_ne_of_ne hi hj]

theorem swapAt_comm : swapAt a i j = swapAt a j i := by
  funext k
  rw [swapAt, swapAt, Equiv.swap_comm]

/-- The element at a position, if there is one -/
def nodeAt (a : Nat → α) (n i : Nat) : Option α := if 1 ≤ i ∧ i ≤ n then some (a i) else none

/-- No element is greater than its parent. -/
def Ordered (le : α → α → Prop) (a : Nat → α) (n : Nat) : Prop := ∀ i, 2 ≤ i → i ≤ n → le (a i) (a (i / 2))

/-- The order, but for the element at `h`, which may be greater than its
parent. -/
structure UpOrdered (le : α → α → Prop) (a : Nat → α) (n h : Nat) : Prop where
  except : ∀ i, 2 ≤ i → i ≤ n → i ≠ h → le (a i) (a (i / 2))
  grand : 2 ≤ h → ∀ i ≤ n, i / 2 = h → le (a i) (a (h / 2))

/-- The order, but for the element at `h`, which may be less than its
children. -/
structure DownOrdered (le : α → α → Prop) (a : Nat → α) (n h : Nat) : Prop where
  except : ∀ i, 2 ≤ i → i ≤ n → i / 2 ≠ h → le (a i) (a (i / 2))
  grand : 2 ≤ h → ∀ i ≤ n, i / 2 = h → le (a i) (a (h / 2))

/-! ## Elements -/

theorem contents_succ : contents a (n + 1) = a (n + 1) ::ₘ contents a n := by
  rw [contents, Multiset.range_succ, Multiset.map_cons]
  rfl

theorem mem_contents {x : α} : x ∈ contents a n ↔ ∃ i, 1 ≤ i ∧ i ≤ n ∧ a i = x := by
  rw [contents, Multiset.mem_map]
  constructor
  · rintro ⟨i, hi, rfl⟩
    exact ⟨i + 1, Nat.succ_pos i, Multiset.mem_range.mp hi, rfl⟩
  · rintro ⟨i, hpos, hle, rfl⟩
    exact ⟨i - 1, Multiset.mem_range.mpr (by omega), by rw [Nat.sub_add_cancel hpos]⟩

theorem contents_congr (hab : ∀ i, 1 ≤ i → i ≤ n → a i = b i) : contents a n = contents b n :=
  Multiset.map_congr rfl fun i hi => hab _ (Nat.succ_pos i) (Multiset.mem_range.mp hi)

/-- Different positions have different elements. -/
theorem eq_of_nodup (h : (contents a n).Nodup) (hi : 1 ≤ i) (hin : i ≤ n) (hj : 1 ≤ j) (hjn : j ≤ n)
    (heq : a i = a j) : i = j := by
  have hpred := Multiset.inj_on_of_nodup_map h (i - 1) (Multiset.mem_range.mpr (by omega)) (j - 1)
    (Multiset.mem_range.mpr (by omega)) (by rw [Nat.sub_add_cancel hi, Nat.sub_add_cancel hj, heq])
  omega

theorem nodeAt_of_le (hi : 1 ≤ i) (hin : i ≤ n) : nodeAt a n i = some (a i) := if_pos ⟨hi, hin⟩

theorem nodeAt_of_lt (hi : n < i) : nodeAt a n i = none := if_neg fun h => Nat.not_lt.mpr h.2 hi

theorem nodeAt_zero : nodeAt a n 0 = none := if_neg fun h => Nat.not_succ_le_zero 0 h.1

theorem nodeAt_eq_some_iff {x : α} : nodeAt a n i = some x ↔ (1 ≤ i ∧ i ≤ n) ∧ a i = x := by
  rw [nodeAt]
  split <;> simp_all

theorem nodeAt_swapAt_of_ne (hi : c ≠ i) (hj : c ≠ j) : nodeAt (swapAt a i j) n c = nodeAt a n c := by
  rw [nodeAt, nodeAt, swapAt_of_ne hi hj]

/-- The position of an element is known from it. -/
theorem nodeAt_eq_iff (h : (contents a n).Nodup) (hj : 1 ≤ j) (hjn : j ≤ n) : nodeAt a n i = some (a j) ↔ i = j := by
  rw [nodeAt_eq_some_iff]
  constructor
  · rintro ⟨⟨hi, hin⟩, heq⟩
    exact eq_of_nodup h hi hin hj hjn heq
  · rintro rfl
    exact ⟨⟨hj, hjn⟩, rfl⟩

/-- An exchange of two elements keeps the elements. -/
theorem contents_swapAt (hi : 1 ≤ i) (hin : i ≤ n) (hj : 1 ≤ j) (hjn : j ≤ n) :
    contents (swapAt a i j) n = contents a n := by
  have hswap : ∀ k, 1 ≤ k → k ≤ n → 1 ≤ Equiv.swap i j k ∧ Equiv.swap i j k ≤ n := by
    intro k hk hkn
    rw [Equiv.swap_apply_def]
    split
    · exact ⟨hj, hjn⟩
    · split
      · exact ⟨hi, hin⟩
      · exact ⟨hk, hkn⟩
  -- the exchange permutes the positions
  have hpositions : (Multiset.range n).map (fun k => Equiv.swap i j (k + 1))
      = (Multiset.range n).map fun k => k + 1 := by
    have hnodup : ((Multiset.range n).map fun k => Equiv.swap i j (k + 1)).Nodup :=
      (Multiset.nodup_range n).map ((Equiv.swap i j).injective.comp Nat.succ_injective)
    refine (hnodup.ext ((Multiset.nodup_range n).map Nat.succ_injective)).mpr fun k => ?_
    simp only [Multiset.mem_map, Multiset.mem_range]
    constructor
    · rintro ⟨k, hk, rfl⟩
      obtain ⟨hpos, hle⟩ := hswap (k + 1) (Nat.succ_pos k) hk
      exact ⟨_, Nat.lt_of_lt_of_le (Nat.sub_lt hpos Nat.one_pos) hle, Nat.sub_add_cancel hpos⟩
    · rintro ⟨k, hk, rfl⟩
      obtain ⟨hpos, hle⟩ := hswap (k + 1) (Nat.succ_pos k) hk
      exact ⟨_, Nat.lt_of_lt_of_le (Nat.sub_lt hpos Nat.one_pos) hle, by
        rw [Nat.sub_add_cancel hpos, Equiv.swap_apply_self]⟩
  calc contents (swapAt a i j) n
      = ((Multiset.range n).map fun k => Equiv.swap i j (k + 1)).map a := by rw [Multiset.map_map]; rfl
    _ = ((Multiset.range n).map fun k => k + 1).map a := by rw [hpositions]
    _ = contents a n := by rw [Multiset.map_map]; rfl

/-! ## Order -/

theorem Ordered.upOrdered (h : Ordered le a n) {x : α} : UpOrdered le (Function.update a (n + 1) x) (n + 1) (n + 1) := by
  refine ⟨fun i hi hin hne => ?_, fun _ i hin heq => by omega⟩
  rw [Function.update_of_ne hne, Function.update_of_ne (by omega)]
  exact h i hi (by omega)

theorem UpOrdered.ordered (hup : UpOrdered le a n h) (hparent : 2 ≤ h → le (a h) (a (h / 2))) : Ordered le a n := by
  intro i hi hin
  by_cases hih : i = h
  · subst hih
    exact hparent hi
  · exact hup.except i hi hin hih

theorem Ordered.le_root (h : Ordered le a n) (hrefl : ∀ x, le x x) (htrans : ∀ x y z, le x y → le y z → le x z) :
    ∀ i, 1 ≤ i → i ≤ n → le (a i) (a 1) := by
  intro i
  induction i using Nat.strongRecOn with
  | ind i ih =>
      intro hi hin
      rcases Nat.eq_or_lt_of_le hi with rfl | hi
      · exact hrefl _
      · exact htrans _ _ _ (h i hi hin) (ih (i / 2) (by omega) (by omega) (by omega))

/-- An element that is greater than its parent changes places with it. -/
theorem UpOrdered.swap (hup : UpOrdered le a n h) (hh : 2 ≤ h) (hgreater : le (a (h / 2)) (a h))
    (htrans : ∀ x y z, le x y → le y z → le x z) : UpOrdered le (swapAt a h (h / 2)) n (h / 2) := by
  -- what is below the parent is below the element
  have hbelow : ∀ i, 2 ≤ i → i ≤ n → i ≠ h → i / 2 = h / 2 → le (a i) (a h) := by
    intro i hi hin hne heq
    have hi' := hup.except i hi hin hne
    rw [heq] at hi'
    exact htrans _ _ _ hi' hgreater
  refine ⟨fun i hi hin hne => ?_, fun hh' i hin heq => ?_⟩
  · by_cases hih : i = h
    · subst hih
      rw [swapAt_left, swapAt_right]
      exact hgreater
    · rw [swapAt_of_ne hih hne]
      by_cases hip : i / 2 = h / 2
      · rw [hip, swapAt_right]
        exact hbelow i hi hin hih hip
      · by_cases hgrand : i / 2 = h
        · rw [hgrand, swapAt_left]
          exact hup.grand hh i hin hgrand
        · rw [swapAt_of_ne hgrand hip]
          exact hup.except i hi hin hih
  · rw [swapAt_of_ne (by omega : h / 2 / 2 ≠ h) (by omega)]
    have hparent : le (a (h / 2)) (a (h / 2 / 2)) := hup.except (h / 2) hh' (by omega) (by omega)
    by_cases hih : i = h
    · subst hih
      rw [swapAt_left]
      exact hparent
    · rw [swapAt_of_ne hih (by omega)]
      have hi := hup.except i (by omega) hin hih
      rw [heq] at hi
      exact htrans _ _ _ hi hparent

theorem DownOrdered.ordered (hdown : DownOrdered le a n h) (hchildren : ∀ i ≤ n, i / 2 = h → le (a i) (a h)) :
    Ordered le a n := by
  intro i hi hin
  by_cases hih : i / 2 = h
  · rw [hih]
    exact hchildren i hin hih
  · exact hdown.except i hi hin hih

/-- An element that is less than a child changes places with the greatest
child. -/
theorem DownOrdered.swap (hdown : DownOrdered le a n h) (hh : 1 ≤ h) (hc : c / 2 = h) (hcn : c ≤ n)
    (hgreater : le (a h) (a c)) (hmax : ∀ i ≤ n, i / 2 = h → le (a i) (a c)) :
    DownOrdered le (swapAt a h c) n c := by
  refine ⟨fun i hi hin hne => ?_, fun _ i hin heq => ?_⟩
  · by_cases hic : i = c
    · subst hic
      rw [swapAt_right, hc, swapAt_left]
      exact hgreater
    · by_cases hih : i = h
      · subst hih
        rw [swapAt_left, swapAt_of_ne (by omega) (by omega)]
        exact hdown.grand hi c hcn hc
      · rw [swapAt_of_ne hih hic]
        by_cases hchild : i / 2 = h
        · rw [hchild, swapAt_left]
          exact hmax i hin hchild
        · rw [swapAt_of_ne hchild hne]
          exact hdown.except i hi hin hchild
  · rw [swapAt_of_ne (by omega) (by omega), hc, swapAt_left]
    have hi := hdown.except i (by omega) hin (by omega)
    rwa [heq] at hi

/-- The last element in the place of the first one -/
theorem Ordered.downOrdered (h : Ordered le a (n + 1)) : DownOrdered le (swapAt a 1 (n + 1)) n 1 := by
  refine ⟨fun i hi hin hne => ?_, fun hh => absurd hh (by decide)⟩
  rw [swapAt_of_ne (by omega) (by omega), swapAt_of_ne hne (by omega)]
  exact h i hi (by omega)

end LevelHeap
