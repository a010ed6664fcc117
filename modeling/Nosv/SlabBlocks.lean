import Nosv.Slab

/-!
# Blocks and their places

Every block of a page that is in a bucket is in one place: the list of its
page, the list of a CPU, the hands of a caller on the way from the one to
the other, with its owner, or with a caller that is about to return or to
free it.
-/

namespace Nosv

open SList

namespace Slab

open Teardown

variable {ε : Type} {plat : Platform} {s s' : State ε} {p q b c x y : Nat}

/-! ## Sizes -/

theorem objSize_pos (b : Nat) : 0 < objSize b := Nat.two_pow_pos _

theorem objSize_mul (hb : b < slabBuckets) : bucketObjinpage b * objSize b = pageSize := by
  have hle : b + slabAllocMin ≤ 21 := by
    unfold slabBuckets slabAllocMin at *
    omega
  have hpage : pageSize = 2 ^ 21 := rfl
  unfold bucketObjinpage objSize
  rw [hpage]
  exact Nat.div_mul_cancel (Nat.pow_dvd_pow 2 hle)

theorem four_le_bucketObjinpage (hb : b < slabBuckets) : 4 ≤ bucketObjinpage b := by
  have hsize : objSize b ≤ 2 ^ 19 := by
    refine Nat.pow_le_pow_right (by decide) ?_
    unfold slabBuckets slabAllocMin at *
    omega
  refine (Nat.le_div_iff_mul_le (objSize_pos b)).mpr (Nat.le_trans (Nat.mul_le_mul_left 4 hsize) ?_)
  decide

theorem bucketOf_lt {size : Nat} (hfits : plat.Fits size) : bucketOf plat size < slabBuckets := by
  have hfits : plat.allocsize size < slabBuckets + slabAllocMin := hfits
  unfold bucketOf slabBuckets slabAllocMin at *
  omega

/-- A block of the bucket is not smaller than what was asked for. -/
theorem size_le_objSize {size : Nat} (hle : 2 ≤ size) (hlt : size < 18446744073709551616) :
    size ≤ objSize (bucketOf plat size) := by
  have halloc := allocsize_of_lt plat size hle (Nat.le_of_lt hlt)
  have hlog : size - 1 < 2 ^ (Nat.log2 (size - 1) + 1) := Nat.lt_log2_self
  have hmin : slabAllocMin ≤ plat.allocsize size := halloc ▸ Nat.le_max_left ..
  unfold objSize bucketOf
  rw [Nat.sub_add_cancel hmin]
  calc size ≤ 2 ^ (Nat.log2 (size - 1) + 1) := by omega
    _ ≤ 2 ^ plat.allocsize size := Nat.pow_le_pow_right (by decide) (halloc ▸ Nat.le_max_right ..)

/-! ## Blocks -/

/-- The address is that of a block of page `p`, which is in bucket `b`. -/
def State.IsBlock (s : State ε) (x p b : Nat) : Prop :=
  s.owner p = some b ∧ b < slabBuckets ∧ ∃ i < bucketObjinpage b, x = s.addr p + i * objSize b

theorem State.IsBlock.bounds (h : s.IsBlock x p b) : s.addr p ≤ x ∧ x + objSize b ≤ s.addr p + pageSize := by
  obtain ⟨-, hb, i, hi, rfl⟩ := h
  have hmul : (i + 1) * objSize b ≤ bucketObjinpage b * objSize b := Nat.mul_le_mul_right _ hi
  rw [objSize_mul hb, Nat.succ_mul] at hmul
  omega

theorem addr_unique {z : Nat} (hp : s.addr p ≤ z ∧ z < s.addr p + pageSize)
    (hq : s.addr q ≤ z ∧ z < s.addr q + pageSize) : p = q := by
  unfold State.addr at hp hq
  have hpage : 0 < pageSize := by decide
  rcases Nat.lt_trichotomy p q with hlt | heq | hgt
  · have hmul : (p + 1) * pageSize ≤ q * pageSize := Nat.mul_le_mul_right _ hlt
    rw [Nat.succ_mul] at hmul
    omega
  · exact heq
  · have hmul : (q + 1) * pageSize ≤ p * pageSize := Nat.mul_le_mul_right _ hgt
    rw [Nat.succ_mul] at hmul
    omega

theorem State.IsBlock.in_page (h : s.IsBlock x p b) : s.addr p ≤ x ∧ x < s.addr p + pageSize := by
  have hbounds := h.bounds
  have hpos := objSize_pos b
  omega

theorem State.IsBlock.unique (h : s.IsBlock x p b) (h' : s.IsBlock x q c) : p = q ∧ b = c := by
  obtain rfl := addr_unique h.in_page h'.in_page
  exact ⟨rfl, Option.some.inj (h.1.symm.trans h'.1)⟩

theorem State.IsBlock.pageOf (h : s.IsBlock x p b) : s.pageOf x = p := by
  have hin := h.in_page
  unfold State.addr at hin
  unfold State.pageOf
  refine Nat.div_eq_of_lt_le (by omega) ?_
  rw [Nat.succ_mul]
  omega

/-- Addresses inside two blocks are different. -/
theorem State.IsBlock.disjoint (h : s.IsBlock x p b) (h' : s.IsBlock y q c) (hne : x ≠ y) :
    x + objSize b ≤ y ∨ y + objSize c ≤ x := by
  by_contra hcon
  have hbounds := h.bounds
  have hbounds' := h'.bounds
  have hpos := objSize_pos b
  have hpos' := objSize_pos c
  obtain rfl : p = q := by
    rcases Nat.le_total x y with hle | hle
    · exact addr_unique (s := s) (z := y) (by omega) (by omega)
    · exact addr_unique (s := s) (z := x) (by omega) (by omega)
  obtain rfl := Option.some.inj (h.1.symm.trans h'.1)
  obtain ⟨-, -, i, -, rfl⟩ := h
  obtain ⟨-, -, j, -, rfl⟩ := h'
  rcases Nat.lt_trichotomy i j with hlt | heq | hgt
  · have hmul : (i + 1) * objSize b ≤ j * objSize b := Nat.mul_le_mul_right _ hlt
    rw [Nat.succ_mul] at hmul
    omega
  · exact hne (by rw [heq])
  · have hmul : (j + 1) * objSize b ≤ i * objSize b := Nat.mul_le_mul_right _ hgt
    rw [Nat.succ_mul] at hmul
    omega

theorem State.IsBlock.congr (hstart : s'.pagesStart = s.pagesStart) (howner : s'.owner p = s.owner p)
    (h : s.IsBlock x p b) : s'.IsBlock x p b := by
  obtain ⟨hp, hb, i, hi, hx⟩ := h
  refine ⟨howner.trans hp, hb, i, hi, ?_⟩
  unfold State.addr at *
  rw [hstart]
  exact hx

/-- The blocks of a page of bucket `b`, in the order of their addresses -/
def State.blocks (s : State ε) (p b : Nat) : List Nat :=
  (List.range (bucketObjinpage b)).map fun i => s.addr p + i * objSize b

theorem mem_blocks : x ∈ s.blocks p b ↔ ∃ i < bucketObjinpage b, x = s.addr p + i * objSize b := by
  unfold State.blocks
  rw [List.mem_map]
  constructor
  · rintro ⟨i, hi, rfl⟩
    exact ⟨i, List.mem_range.mp hi, rfl⟩
  · rintro ⟨i, hi, rfl⟩
    exact ⟨i, List.mem_range.mpr hi, rfl⟩

theorem length_blocks : (s.blocks p b).length = bucketObjinpage b := by
  unfold State.blocks
  rw [List.length_map, List.length_range]

theorem nodup_blocks : (s.blocks p b).Nodup := by
  refine List.Nodup.map (fun i j hij => ?_) List.nodup_range
  exact Nat.eq_of_mul_eq_mul_right (objSize_pos b) (Nat.add_left_cancel hij)

/-- Blocks of one page, no two the same, are as many as fit in the page at
most, and then they are all of them. -/
theorem length_le_of_blocks {l : List Nat} (hnodup : l.Nodup) (hblocks : ∀ x ∈ l, s.IsBlock x p b) :
    l.length ≤ bucketObjinpage b ∧ (l.length = bucketObjinpage b → ∀ x, s.IsBlock x p b → x ∈ l) := by
  have hsub : l.Subperm (s.blocks p b) :=
    List.subperm_of_subset hnodup fun x hx => mem_blocks.mpr (hblocks x hx).2.2
  refine ⟨length_blocks (s := s) (p := p) ▸ hsub.length_le, fun hlength x hx => ?_⟩
  have hperm := hsub.perm_of_length_le (by rw [length_blocks, hlength])
  exact hperm.mem_iff.mpr (mem_blocks.mpr hx.2.2)

/-! ## A new page -/

theorem initializeLoop_other {stride : Nat} (hstride : 0 < stride) (hx : x < p) :
    ∀ (n : Nat) (memory : Nat → Option Nat), initializeLoop stride memory p n x = memory x := by
  intro n
  induction n generalizing p with
  | zero => exact fun _ => rfl
  | succ n ih =>
      intro memory
      rw [initializeLoop, ih (by omega), Function.update_of_ne (Nat.ne_of_lt hx)]

theorem initializeLoop_above {stride : Nat} :
    ∀ (n base : Nat) (memory : Nat → Option Nat), base + n * stride ≤ x →
      0 < stride → initializeLoop stride memory base n x = memory x := by
  intro n
  induction n with
  | zero => exact fun _ _ _ _ => rfl
  | succ n ih =>
      intro base memory hx hstride
      rw [Nat.succ_mul] at hx
      have hne : x ≠ base := by omega
      rw [initializeLoop, ih _ _ (by omega) hstride, Function.update_of_ne hne]

/-- The blocks of the loop are linked, with one link behind the last one. -/
theorem initializeLoop_link {stride : Nat} (hstride : 0 < stride) :
    ∀ (n base : Nat) (memory : Nat → Option Nat), ∀ i < n,
      initializeLoop stride memory base n (base + i * stride) = some (base + (i + 1) * stride) := by
  intro n
  induction n with
  | zero => exact fun _ _ i hi => absurd hi (Nat.not_lt_zero i)
  | succ n ih =>
      intro base memory i hi
      rw [initializeLoop]
      cases i with
      | zero =>
          rw [Nat.zero_mul, Nat.add_zero, Nat.zero_add, Nat.one_mul, initializeLoop_other hstride (by omega),
            Function.update_self]
      | succ i =>
          have hmul : (i + 1) * stride = i * stride + stride := Nat.succ_mul ..
          have hmul' : (i + 1 + 1) * stride = (i + 1) * stride + stride := Nat.succ_mul ..
          have hlink := ih (base + stride) (Function.update memory base (some (base + stride))) i (by omega)
          rw [show base + (i + 1) * stride = base + stride + i * stride by omega, hlink, hmul', hmul]
          congr 1
          omega

theorem isSList_of_links (memory : Nat → Option Nat) (stride n base : Nat)
    (hlinks : ∀ i, i + 1 < n → memory (base + i * stride) = some (base + (i + 1) * stride))
    (hlast : memory (base + (n - 1) * stride) = none) (k : Nat) (hk : k < n) :
    IsSList memory (some (base + k * stride))
      ((List.range' k (n - k)).map fun i => base + i * stride) := by
  obtain ⟨m, hm⟩ : ∃ m, n - k = m + 1 := ⟨n - k - 1, by omega⟩
  induction m generalizing k with
  | zero =>
      rw [hm]
      refine ⟨rfl, ?_⟩
      rw [show k = n - 1 by omega, hlast]
      rfl
  | succ m ih =>
      have hnext := ih (k + 1) (by omega) (by omega)
      rw [hm]
      refine ⟨rfl, ?_⟩
      rw [hlinks k (by omega)]
      rwa [show n - (k + 1) = m + 1 by omega] at hnext

/-- After `bucket_initialize_page` all blocks of the page are in its list. -/
theorem isSList_bucketInitializePage (s : State ε) (hb : b < slabBuckets) :
    IsSList (bucketInitializePage s.memory b (s.addr p)) (some (s.addr p)) (s.blocks p b) := by
  have hfour := four_le_bucketObjinpage hb
  have hpos := objSize_pos b
  have hlist := isSList_of_links (bucketInitializePage s.memory b (s.addr p)) (objSize b) (bucketObjinpage b)
    (s.addr p) (fun i hi => ?_) ?_ 0 (by omega)
  · rw [Nat.zero_mul, Nat.add_zero, Nat.sub_zero, ← List.range_eq_range'] at hlist
    exact hlist
  · unfold bucketInitializePage
    have hlt : i * objSize b < (bucketObjinpage b - 1) * objSize b :=
      Nat.mul_lt_mul_of_pos_right (by omega) hpos
    rw [Function.update_of_ne (by omega), initializeLoop_link hpos _ _ _ i (by omega)]
  · exact Function.update_self ..

theorem bucketInitializePage_other (s : State ε) (hb : b < slabBuckets)
    (hx : x < s.addr p ∨ s.addr p + pageSize ≤ x) :
    bucketInitializePage s.memory b (s.addr p) x = s.memory x := by
  have hfour := four_le_bucketObjinpage hb
  have hpos := objSize_pos b
  have hmul := objSize_mul hb
  have hlt : (bucketObjinpage b - 1) * objSize b < bucketObjinpage b * objSize b :=
    Nat.mul_lt_mul_of_pos_right (by omega) hpos
  unfold bucketInitializePage
  rw [Function.update_of_ne (by omega)]
  rcases hx with hx | hx
  · exact initializeLoop_other hpos hx _ _
  · exact initializeLoop_above _ _ _ (by omega) hpos

end Slab

end Nosv
