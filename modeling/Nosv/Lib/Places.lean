import Mathlib.Algebra.BigOperators.Group.Finset.Basic
import Mathlib.Algebra.Order.BigOperators.Group.Finset
import Mathlib.Algebra.Order.Group.Multiset

/-!
# Elements kept in places

A family `f : ι → Multiset α` says which elements lie in which place. It
is *distinct* when every element lies in at most one place, and there
once. The only operation needed is `add`: a family `f` from which an
element `a` is taken out of place `i` is a family `g` with
`f = add g i a`, so that taking out, putting in and moving are all
reasoned about with the lemmas on `add`.

`weight` sums a weight of the elements over a finite set of places. A
step that changes the weight of one element `a` is handled by taking `a`
out first (`weight_add`), where the change is not seen (`weight_congr`).
-/

namespace Places

variable {ι α : Type*} [DecidableEq ι]

/-- The family with one more `a` in place `i`. -/
def add (f : ι → Multiset α) (i : ι) (a : α) : ι → Multiset α :=
  Function.update f i (a ::ₘ f i)

/-- Every element lies in at most one place, once. -/
structure Distinct (f : ι → Multiset α) : Prop where
  nodup : ∀ i, (f i).Nodup
  inj : ∀ {i j : ι} {a : α}, a ∈ f i → a ∈ f j → i = j

def Absent (f : ι → Multiset α) (a : α) : Prop := ∀ i, a ∉ f i

variable {f g : ι → Multiset α} {i j : ι} {a b : α}

theorem add_self : add f i a i = a ::ₘ f i := Function.update_self ..

theorem add_ne (h : j ≠ i) : add f i a j = f j := Function.update_of_ne h ..

theorem mem_add : b ∈ add f i a j ↔ (j = i ∧ b = a) ∨ b ∈ f j := by
  by_cases h : j = i
  · subst h
    rw [add_self, Multiset.mem_cons]
    tauto
  · rw [add_ne h]
    tauto

/-- An element that is there can be taken out. -/
theorem exists_add (h : a ∈ f i) : ∃ g, f = add g i a := by
  obtain ⟨rest, hrest⟩ := Multiset.exists_cons_of_mem h
  refine ⟨Function.update f i rest, funext fun j => ?_⟩
  by_cases hj : j = i
  · subst hj
    rw [add_self, Function.update_self, hrest]
  · rw [add_ne hj, Function.update_of_ne hj]

theorem Distinct.of_add (h : Distinct (add f i a)) : Distinct f ∧ Absent f a := by
  have hself := h.nodup i
  rw [add_self, Multiset.nodup_cons] at hself
  refine ⟨⟨fun j => ?_, fun hb hb' => h.inj (mem_add.mpr (Or.inr hb))
    (mem_add.mpr (Or.inr hb'))⟩, fun j hj => ?_⟩
  · by_cases hji : j = i
    · exact hji ▸ hself.2
    · have := h.nodup j
      rwa [add_ne hji] at this
  · have hji : j = i :=
      h.inj (mem_add.mpr (Or.inr hj)) (mem_add.mpr (Or.inl ⟨rfl, rfl⟩))
    exact hself.1 (hji ▸ hj)

theorem Distinct.add (h : Distinct f) (ha : Absent f a) (i : ι) : Distinct (add f i a) := by
  refine ⟨fun j => ?_, fun {j k b} hj hk => ?_⟩
  · by_cases hji : j = i
    · subst hji
      rw [add_self, Multiset.nodup_cons]
      exact ⟨ha j, h.nodup j⟩
    · rw [add_ne hji]
      exact h.nodup j
  · rcases mem_add.mp hj with ⟨hji, hba⟩ | hjf
    · rcases mem_add.mp hk with ⟨hki, -⟩ | hkf
      · rw [hji, hki]
      · exact absurd (hba ▸ hkf) (ha k)
    · rcases mem_add.mp hk with ⟨-, hba⟩ | hkf
      · exact absurd (hba ▸ hjf) (ha j)
      · exact h.inj hjf hkf

omit [DecidableEq ι] in
theorem distinct_empty : Distinct (fun _ : ι => (0 : Multiset α)) :=
  ⟨fun _ => Multiset.nodup_zero, fun h => absurd h (Multiset.notMem_zero _)⟩

omit [DecidableEq ι] in
/-- Place `i` also gets some elements that were nowhere. -/
theorem Distinct.gain {m : Multiset α} (h : Distinct f) (hout : ∀ j, j ≠ i → g j = f j)
    (hle : g i ≤ f i + m) (hm : m.Nodup) (habsent : ∀ a ∈ m, Absent f a) : Distinct g := by
  have hi : ∀ {a}, a ∈ g i → a ∈ f i ∨ a ∈ m := fun ha =>
    Multiset.mem_add.mp (Multiset.mem_of_le hle ha)
  refine ⟨fun j => ?_, fun {j k a} hj hk => ?_⟩
  · by_cases hji : j = i
    · rw [hji]
      refine Multiset.nodup_of_le hle (Multiset.nodup_add.mpr ⟨h.nodup i, hm, ?_⟩)
      exact Multiset.disjoint_right.mpr fun {a} ha hf => habsent a ha i hf
    · rw [hout j hji]
      exact h.nodup j
  · by_cases hji : j = i <;> by_cases hki : k = i
    · rw [hji, hki]
    · rw [hout k hki] at hk
      rcases hi (hji ▸ hj) with hf | ha
      · exact hji.trans (h.inj hf hk)
      · exact absurd hk (habsent a ha k)
    · rw [hout j hji] at hj
      rcases hi (hki ▸ hk) with hf | ha
      · exact (h.inj hj hf).trans hki.symm
      · exact absurd hj (habsent a ha j)
    · rw [hout j hji] at hj
      rw [hout k hki] at hk
      exact h.inj hj hk

omit [DecidableEq ι] in
theorem Distinct.mono (h : Distinct f) (hle : ∀ i, g i ≤ f i) : Distinct g :=
  ⟨fun i => Multiset.nodup_of_le (hle i) (h.nodup i),
    fun hi hj => h.inj (Multiset.mem_of_le (hle _) hi) (Multiset.mem_of_le (hle _) hj)⟩

/-! ## Exchanging elements

A step that takes elements out of some places and puts them into others
keeps a family distinct if what the places of `S` hold together does not
grow. -/

theorem Distinct.sum_nodup (h : Distinct f) (S : Finset ι) : (∑ i ∈ S, f i).Nodup := by
  induction S using Finset.induction_on with
  | empty => exact Multiset.nodup_zero
  | insert i S hi ih =>
      rw [Finset.sum_insert hi, Multiset.nodup_add]
      refine ⟨h.nodup i, ih, Multiset.disjoint_left.mpr fun {a} ha hsum => ?_⟩
      obtain ⟨j, hj, hmem⟩ := Multiset.mem_sum.mp hsum
      exact hi (h.inj ha hmem ▸ hj)

theorem Distinct.exchange {S : Finset ι} (h : Distinct f) (hout : ∀ i, i ∉ S → g i = f i)
    (hle : ∑ i ∈ S, g i ≤ ∑ i ∈ S, f i) : Distinct g := by
  have hsum : (∑ i ∈ S, g i).Nodup := Multiset.nodup_of_le hle (h.sum_nodup S)
  have hpart : ∀ {i}, i ∈ S → g i ≤ ∑ j ∈ S, g j := fun hi =>
    Finset.single_le_sum (fun j _ => Multiset.zero_le (g j)) hi
  have hfrom : ∀ {i a}, i ∈ S → a ∈ g i → ∃ k ∈ S, a ∈ f k := fun hi ha =>
    Multiset.mem_sum.mp (Multiset.mem_of_le hle (Multiset.mem_of_le (hpart hi) ha))
  refine ⟨fun i => ?_, fun {i j a} hi hj => ?_⟩
  · by_cases hiS : i ∈ S
    · exact Multiset.nodup_of_le (hpart hiS) hsum
    · rw [hout i hiS]
      exact h.nodup i
  · by_cases hiS : i ∈ S <;> by_cases hjS : j ∈ S
    · by_contra hne
      -- two of the places of `S` would hold the element
      have hpair : g i + g j ≤ ∑ k ∈ S, g k := by
        rw [← Finset.add_sum_erase S g hiS]
        exact add_le_add le_rfl (Finset.single_le_sum (fun k _ => Multiset.zero_le (g k))
          (Finset.mem_erase.mpr ⟨Ne.symm hne, hjS⟩))
      have hnodup := Multiset.nodup_of_le hpair hsum
      exact Multiset.disjoint_left.mp (Multiset.nodup_add.mp hnodup).2.2 hi hj
    · obtain ⟨k, hk, hfk⟩ := hfrom hiS hi
      rw [hout j hjS] at hj
      exact absurd (h.inj hfk hj ▸ hk) hjS
    · obtain ⟨k, hk, hfk⟩ := hfrom hjS hj
      rw [hout i hiS] at hi
      exact absurd (h.inj hfk hi ▸ hk) hiS
    · rw [hout i hiS] at hi
      rw [hout j hjS] at hj
      exact h.inj hi hj

/-! ## Weights -/

/-- The total weight of the elements in the places of `S`. -/
def weight (w : α → Int) (S : Finset ι) (f : ι → Multiset α) : Int :=
  ∑ i ∈ S, ((f i).map w).sum

variable {w w' : α → Int} {S : Finset ι}

theorem weight_add (hi : i ∈ S) : weight w S (add f i a) = w a + weight w S f := by
  unfold weight
  rw [← Finset.add_sum_erase S _ hi, ← Finset.add_sum_erase S (fun j => ((f j).map w).sum) hi]
  have hrest : ∑ j ∈ S.erase i, ((add f i a j).map w).sum
      = ∑ j ∈ S.erase i, ((f j).map w).sum :=
    Finset.sum_congr rfl fun j hj => by rw [add_ne (Finset.ne_of_mem_erase hj)]
  rw [hrest, add_self, Multiset.map_cons, Multiset.sum_cons, add_assoc]

theorem weight_add_of_notMem (hi : i ∉ S) : weight w S (add f i a) = weight w S f :=
  Finset.sum_congr rfl fun j hj => by
    have hji : j ≠ i := fun h => hi (h ▸ hj)
    rw [add_ne hji]

theorem weight_add_ite :
    weight w S (add f i a) = (if i ∈ S then w a else 0) + weight w S f := by
  split
  · rename_i hi
    exact weight_add hi
  · rename_i hi
    rw [weight_add_of_notMem hi, zero_add]

theorem weight_relocate (h : i ∈ S ↔ j ∈ S) :
    weight w S (add f i a) = weight w S (add f j a) := by
  by_cases hi : i ∈ S
  · rw [weight_add hi, weight_add (h.mp hi)]
  · rw [weight_add_of_notMem hi, weight_add_of_notMem fun hj => hi (h.mpr hj)]

omit [DecidableEq ι] in
theorem weight_congr (h : ∀ i ∈ S, ∀ a ∈ f i, w a = w' a) : weight w S f = weight w' S f :=
  Finset.sum_congr rfl fun i hi => by rw [Multiset.map_congr rfl (h i hi)]

omit [DecidableEq ι] in
theorem weight_empty (h : ∀ i ∈ S, f i = 0) : weight w S f = 0 :=
  Finset.sum_eq_zero fun i hi => by rw [h i hi]; rfl

/-- A place that holds nothing does not count. -/
theorem weight_insert_empty (h : f i = 0) : weight w (insert i S) f = weight w S f := by
  by_cases hi : i ∈ S
  · rw [Finset.insert_eq_of_mem hi]
  · rw [weight, Finset.sum_insert hi, h, Multiset.map_zero, Multiset.sum_zero, zero_add, weight]

omit [DecidableEq ι] in
theorem weight_nonneg (h : ∀ i ∈ S, ∀ a ∈ f i, 0 ≤ w a) : 0 ≤ weight w S f := by
  refine Finset.sum_nonneg fun i hi => Multiset.sum_nonneg fun x hx => ?_
  obtain ⟨a, ha, rfl⟩ := Multiset.mem_map.mp hx
  exact h i hi a ha

omit [DecidableEq ι] in
theorem weight_mono (h : ∀ i ∈ S, ∀ a ∈ f i, w a ≤ w' a) : weight w S f ≤ weight w' S f :=
  Finset.sum_le_sum fun i hi => Multiset.sum_map_le_sum_map _ _ (h i hi)

/-- A sum in which one term changes. -/
theorem sum_change {v v' : ι → Int} (hi : i ∈ S) (hoff : ∀ j, j ≠ i → v' j = v j) :
    ∑ j ∈ S, v' j = ∑ j ∈ S, v j + (v' i - v i) := by
  have hrest : ∑ j ∈ S.erase i, v' j = ∑ j ∈ S.erase i, v j :=
    Finset.sum_congr rfl fun j hj => hoff j (Finset.ne_of_mem_erase hj)
  have hv := Finset.add_sum_erase S v hi
  have hv' := Finset.add_sum_erase S v' hi
  omega

end Places
