import Mathlib.Data.List.Nodup
import Nosv.Task

/-!
# The backbone allocator

`backbone_alloc_init` divides the shared memory into a header, an array of
page metadata and the pages. It estimates how many pages fit, puts the
first page after that many entries, and then counts the pages again from
the space that is left. The estimate divides by the size of an entry and a
page together; what that division leaves over can hold one page more, if
alignment does not take it, and then the array is one entry short.

Addresses and sizes are `uintptr_t` and `size_t`: every sum is reduced
modulo `2 ^ 64`.
-/

namespace Nosv

/-- `PAGE_SIZE` -/
def pageSize : Nat := 2097152

/-- `align_to`, for a power of two `n` -/
def alignTo (n x : Nat) : Nat := u64 (x + (n - 1)) / n * n

/-- The sizes of `backbone_header_t` and `page_metadata_t`; the second is
declared with an alignment of 16. -/
structure Sizes where
  header : Nat
  metadata : Nat
  metadata_pos : 0 < metadata
  metadata_aligned : 16 ∣ metadata
  metadata_le : metadata ≤ pageSize

namespace Sizes

/-- Both structures with the eight-byte pointers and the double-word
compare and exchange of x86-64. -/
def x86 : Sizes where
  header := 71192
  metadata := 48
  metadata_pos := by decide
  metadata_aligned := by decide
  metadata_le := by decide

end Sizes

structure Backbone where
  /-- `backbone_pages` -/
  pages : Nat
  /-- `backbone_metadata_start` -/
  metadataStart : Nat
  /-- `backbone_pages_start` -/
  pagesStart : Nat
  /-- the entries on the list `free_pages`, the first one first -/
  freePages : List Nat
  /-- `free_pages.cnt` -/
  count : Nat
  /-- the member `addr` of every entry -/
  addr : Nat → Nat

namespace Backbone

/-- The loop of `backbone_alloc_init` from entry `i` on, with `n` entries
to go. -/
def initPages (b : Backbone) (page : Nat) : Nat → Nat → Backbone
  | _, 0 => b
  | i, n + 1 =>
      -- `clist_add` puts the entry in the first position
      let b := { b with
        freePages := i :: b.freePages
        count := u64 (b.count + 1)
        addr := Function.update b.addr i page }
      initPages b (u64 (page + pageSize)) (i + 1) n

end Backbone

/-- The first number of pages: how many fit with an entry each. -/
def estimatedPages (sz : Sizes) (size : Nat) : Nat :=
  (size - sz.header) / (sz.metadata + pageSize)

def backboneMetadataStart (sz : Sizes) (start : Nat) : Nat := alignTo 16 (u64 (start + sz.header))

def backbonePagesStart (sz : Sizes) (start size : Nat) : Nat :=
  alignTo pageSize
    (u64 (backboneMetadataStart sz start + sz.metadata * estimatedPages sz size))

/-- The part of `backbone_alloc_init` that every process runs. -/
def backboneLayout (sz : Sizes) (start size : Nat) : Backbone :=
  let pagesStart := backbonePagesStart sz start size
  let spaceLeft := u64 (u64 (start + size) + 18446744073709551616 - pagesStart)
  { pages := spaceLeft / pageSize
    metadataStart := backboneMetadataStart sz start
    pagesStart := pagesStart
    freePages := []
    count := 0
    addr := fun _ => 0 }

/-- `backbone_alloc_init`; `first` is the argument `initialize`. -/
def backboneAllocInit (sz : Sizes) (start size : Nat) (first : Bool) : Backbone :=
  let b := backboneLayout sz start size
  if first then b.initPages b.pagesStart 0 b.pages else b

/-- `page_metadata_from_block` -/
def pageMetadataFromBlock (sz : Sizes) (b : Backbone) (block : Nat) : Nat :=
  let idx := u64 (block + 18446744073709551616 - b.pagesStart) / pageSize
  u64 (b.metadataStart + sz.metadata * idx)

/-- Entries before pages, pages inside the memory, and each page reached
from its blocks. -/
structure LayoutSound (sz : Sizes) (start size : Nat) (b : Backbone) : Prop where
  header : start + sz.header ≤ b.metadataStart
  entries : ∀ i < b.pages, b.metadataStart + sz.metadata * (i + 1) ≤ b.pagesStart
  inside : ∀ i < b.pages, start ≤ b.pagesStart + i * pageSize
    ∧ b.pagesStart + (i + 1) * pageSize ≤ start + size
  addr : ∀ i < b.pages, b.addr i = b.pagesStart + i * pageSize
  lookup : ∀ i < b.pages, ∀ block, b.pagesStart + i * pageSize ≤ block →
    block < b.pagesStart + (i + 1) * pageSize →
    pageMetadataFromBlock sz b block = b.metadataStart + sz.metadata * i
  free : b.freePages.length = b.pages ∧ b.count = b.pages ∧ b.freePages.Nodup
    ∧ ∀ i, i ∈ b.freePages ↔ i < b.pages

/-- The bytes that aligning the array and the first page takes. -/
def alignmentPadding (sz : Sizes) (start size : Nat) : Nat :=
  let entries := sz.metadata * estimatedPages sz size
  alignTo pageSize (alignTo 16 (start + sz.header) + entries) - (start + sz.header + entries)

/-! ## Alignment -/

theorem alignTo_bounds {n x : Nat} (hn : 0 < n) (hx : x + n < 18446744073709551616) :
    x ≤ alignTo n x ∧ alignTo n x < x + n := by
  unfold alignTo
  rw [u64_of_lt (by omega)]
  have hdiv := Nat.div_add_mod (x + (n - 1)) n
  have hmod := Nat.mod_lt (x + (n - 1)) hn
  rw [Nat.mul_comm] at hdiv
  omega

/-! ## The loop -/

namespace Backbone

variable {b : Backbone}

theorem initPages_pages (b : Backbone) (page i n : Nat) :
    (b.initPages page i n).pages = b.pages
      ∧ (b.initPages page i n).metadataStart = b.metadataStart
      ∧ (b.initPages page i n).pagesStart = b.pagesStart := by
  induction n generalizing b page i with
  | zero => exact ⟨rfl, rfl, rfl⟩
  | succ n ih =>
      rw [initPages]
      exact ih _ _ _

theorem initPages_freePages (b : Backbone) (page i n : Nat) :
    (b.initPages page i n).freePages = (List.range' i n).reverse ++ b.freePages := by
  induction n generalizing b page i with
  | zero => rfl
  | succ n ih =>
      rw [initPages, ih]
      simp [List.range'_succ]

theorem initPages_count (b : Backbone) (page i n : Nat)
    (h : b.count + n < 18446744073709551616) :
    (b.initPages page i n).count = b.count + n := by
  induction n generalizing b page i with
  | zero => rfl
  | succ n ih =>
      have hone : u64 (b.count + 1) = b.count + 1 := u64_of_lt (by omega)
      rw [initPages, ih]
      · simp only [hone]
        omega
      · simp only [hone]
        omega

/-- Entries before `i` keep their address, the others get theirs. -/
theorem initPages_addr (b : Backbone) (page i n : Nat)
    (h : page + n * pageSize < 18446744073709551616) (j : Nat) :
    (b.initPages page i n).addr j =
      if i ≤ j ∧ j < i + n then page + (j - i) * pageSize else b.addr j := by
  induction n generalizing b page i with
  | zero =>
      rw [initPages, if_neg (by omega)]
  | succ n ih =>
      rw [Nat.succ_mul] at h
      have hnext : u64 (page + pageSize) = page + pageSize := u64_of_lt (by omega)
      rw [initPages, hnext, ih _ _ _ (by omega)]
      by_cases hj : j = i
      · subst hj
        rw [if_neg (by omega), if_pos (by omega)]
        simp
      · simp only [Function.update_of_ne hj]
        by_cases hin : i ≤ j ∧ j < i + (n + 1)
        · rw [if_pos (by omega), if_pos hin]
          have hsub : j - i = j - (i + 1) + 1 := by omega
          rw [hsub, Nat.succ_mul]
          omega
        · rw [if_neg (by omega), if_neg hin]

end Backbone

/-! ## The layout -/

/-- What the layout is computed from, for a memory of more than nine pages
that ends below `2 ^ 64`. -/
structure Layout (sz : Sizes) (start size : Nat) (b : Backbone) : Prop where
  metadata : start + sz.header ≤ b.metadataStart ∧ b.metadataStart < start + sz.header + 16
  pages : b.metadataStart + sz.metadata * estimatedPages sz size ≤ b.pagesStart
  padding : b.pagesStart
    = start + sz.header + sz.metadata * estimatedPages sz size + alignmentPadding sz start size
  fits : b.pagesStart ≤ start + size
  count : b.pages = (start + size - b.pagesStart) / pageSize

theorem estimatedPages_spec (sz : Sizes) {size : Nat} (hsize : 9 * pageSize + sz.header < size) :
    sz.metadata * estimatedPages sz size + estimatedPages sz size * pageSize
        + (size - sz.header) % (sz.metadata + pageSize) = size - sz.header
      ∧ 2 * pageSize ≤ estimatedPages sz size * pageSize := by
  have hdiv := Nat.div_add_mod (size - sz.header) (sz.metadata + pageSize)
  have hle := sz.metadata_le
  refine ⟨?_, Nat.mul_le_mul_right _ ?_⟩
  · rw [Nat.add_mul, Nat.mul_comm pageSize] at hdiv
    exact hdiv
  · refine (Nat.le_div_iff_mul_le ?_).mpr ?_
    · have := sz.metadata_pos
      omega
    · omega

theorem backboneLayout_spec (sz : Sizes) {start size : Nat}
    (hsize : 9 * pageSize + sz.header < size) (hmap : start + size < 18446744073709551616) :
    Layout sz start size (backboneLayout sz start size) := by
  obtain ⟨hest, htwo⟩ := estimatedPages_spec sz hsize
  have hpage : pageSize = 2097152 := rfl
  have hmeta : backboneMetadataStart sz start = alignTo 16 (start + sz.header) := by
    rw [backboneMetadataStart, u64_of_lt (by omega)]
  have hm := alignTo_bounds (by decide : 0 < 16) (by omega : start + sz.header + 16 < _)
  have hpages : backbonePagesStart sz start size = alignTo pageSize
      (alignTo 16 (start + sz.header) + sz.metadata * estimatedPages sz size) := by
    rw [backbonePagesStart, hmeta, u64_of_lt (by omega)]
  have hp := alignTo_bounds (by decide : 0 < pageSize)
    (by omega : alignTo 16 (start + sz.header) + sz.metadata * estimatedPages sz size + pageSize < _)
  have hfits : backbonePagesStart sz start size ≤ start + size := by
    rw [hpages]
    omega
  refine ⟨?_, ?_, ?_, hfits, ?_⟩
  · simp only [backboneLayout, hmeta]
    exact hm
  · simp only [backboneLayout, hmeta, hpages]
    exact hp.1
  · simp only [backboneLayout, hpages, alignmentPadding]
    omega
  · have hleft : u64 (u64 (start + size) + 18446744073709551616 - backbonePagesStart sz start size)
        = start + size - backbonePagesStart sz start size := by
      rw [u64_of_lt hmap]
      unfold u64
      omega
    simp only [backboneLayout, hleft]

/-- The second number of pages exceeds the first exactly when the rest of
the division holds a page that alignment does not take. -/
theorem Layout.pages_le_iff {sz : Sizes} {start size : Nat} {b : Backbone}
    (h : Layout sz start size b) (hsize : 9 * pageSize + sz.header < size) :
    b.pages ≤ estimatedPages sz size ↔
      (size - sz.header) % (sz.metadata + pageSize)
        < pageSize + alignmentPadding sz start size := by
  obtain ⟨hest, -⟩ := estimatedPages_spec sz hsize
  have hpad := h.padding
  have hfits := h.fits
  rw [h.count, ← Nat.lt_succ_iff, Nat.div_lt_iff_lt_mul (by decide), Nat.succ_mul]
  omega

theorem Layout.pages_mul_le {sz : Sizes} {start size : Nat} {b : Backbone}
    (h : Layout sz start size b) : b.pagesStart + b.pages * pageSize ≤ start + size := by
  have hle := Nat.div_mul_le_self (start + size - b.pagesStart) pageSize
  have hfits := h.fits
  rw [← h.count] at hle
  omega

/-- With an entry for every page, everything is where it should be. -/
theorem Layout.sound {sz : Sizes} {start size : Nat} {b : Backbone}
    (h : Layout sz start size b) (hmap : start + size < 18446744073709551616)
    (hempty : b.freePages = []) (hzero : b.count = 0)
    (hle : b.pages ≤ estimatedPages sz size) :
    LayoutSound sz start size (b.initPages b.pagesStart 0 b.pages) := by
  obtain ⟨hpages, hmeta, hstart⟩ := Backbone.initPages_pages b b.pagesStart 0 b.pages
  have hend := h.pages_mul_le
  have hm := h.metadata
  have hp := h.pages
  have hpage : pageSize = 2097152 := rfl
  have hentry (i : Nat) (hi : i < b.pages) :
      b.metadataStart + sz.metadata * (i + 1) ≤ b.pagesStart := by
    have := Nat.mul_le_mul_left sz.metadata (by omega : i + 1 ≤ estimatedPages sz size)
    omega
  have hinside (i : Nat) (hi : i < b.pages) : (i + 1) * pageSize ≤ b.pages * pageSize :=
    Nat.mul_le_mul_right _ (by omega)
  refine ⟨?_, fun i hi => ?_, fun i hi => ?_, fun i hi => ?_, fun i hi block hlo hhi => ?_, ?_⟩
  · rw [hmeta]
    exact hm.1
  · rw [hpages] at hi
    rw [hmeta, hstart]
    exact hentry i hi
  · rw [hpages] at hi
    have := hinside i hi
    rw [hstart]
    exact ⟨by omega, by omega⟩
  · rw [hpages] at hi
    rw [Backbone.initPages_addr _ _ _ _ (by omega), if_pos (by omega), hstart, Nat.sub_zero]
  · rw [hpages] at hi
    rw [hstart] at hlo hhi
    have hnext := hinside i hi
    have hentry' := hentry i hi
    rw [Nat.mul_succ] at hentry'
    have hoff : u64 (block + 18446744073709551616 - b.pagesStart) = block - b.pagesStart := by
      unfold u64
      omega
    have hidx : (block - b.pagesStart) / pageSize = i := by
      refine Nat.div_eq_of_lt_le ?_ ?_
      · omega
      · rw [Nat.succ_mul] at hhi ⊢
        omega
    simp only [pageMetadataFromBlock, hstart, hmeta, hoff, hidx]
    exact u64_of_lt (by omega)
  · have hcount := Backbone.initPages_count b b.pagesStart 0 b.pages (by
      have := Nat.le_mul_of_pos_right b.pages (by decide : 0 < pageSize)
      omega)
    rw [Backbone.initPages_freePages, hcount, hpages, hempty, hzero, List.append_nil]
    refine ⟨by simp, by omega, ?_, fun i => ?_⟩
    · exact List.nodup_reverse.mpr List.nodup_range'
    · simp

/-- With one page more than entries, the last entry is in the first page. -/
theorem Layout.not_sound {sz : Sizes} {start size : Nat} {b : Backbone}
    (h : Layout sz start size b) (hsize : 9 * pageSize + sz.header < size)
    (hgt : estimatedPages sz size < b.pages) :
    ¬ LayoutSound sz start size (b.initPages b.pagesStart 0 b.pages) := by
  obtain ⟨hpages, hmeta, hstart⟩ := Backbone.initPages_pages b b.pagesStart 0 b.pages
  intro hs
  have hentry := hs.entries (estimatedPages sz size) (by rw [hpages]; exact hgt)
  rw [hmeta, hstart, Nat.mul_succ] at hentry
  have hrest := (h.pages_le_iff hsize).not.mp (by omega)
  have hmod := Nat.mod_lt (size - sz.header) (by have := sz.metadata_pos; omega :
    0 < sz.metadata + pageSize)
  have hpad := h.padding
  have hm := h.metadata
  omega

/-- The layout of the backbone is sound exactly when the rest of the
division does not hold another page. -/
theorem backbone_sound_iff (sz : Sizes) (start size : Nat)
    (hsize : 9 * pageSize + sz.header < size) (hmap : start + size < 18446744073709551616) :
    LayoutSound sz start size (backboneAllocInit sz start size true) ↔
      (size - sz.header) % (sz.metadata + pageSize)
        < pageSize + alignmentPadding sz start size := by
  have h := backboneLayout_spec sz hsize hmap
  have hempty : (backboneLayout sz start size).freePages = [] := by simp only [backboneLayout]
  have hzero : (backboneLayout sz start size).count = 0 := by simp only [backboneLayout]
  rw [← h.pages_le_iff hsize, backboneAllocInit, if_pos rfl]
  constructor
  · intro hs
    by_contra hgt
    exact h.not_sound hsize (by omega) hs
  · exact h.sound hmap hempty hzero

/-- Eleven pages at the default address. -/
theorem backbone_sound_default :
    LayoutSound .x86 35184372088832 23068672 (backboneAllocInit .x86 35184372088832 23068672 true) :=
  (backbone_sound_iff .x86 35184372088832 23068672 (by decide +kernel) (by decide +kernel)).mpr
    (by decide +kernel)

/-- Ten entries and eleven pages: the entry of the eleventh page is the
beginning of the first page. -/
theorem backbone_entry_in_page :
    16 ∣ 35184372017152 ∧ 9 * pageSize + Sizes.x86.header < 23140352
      ∧ ¬ LayoutSound .x86 35184372017152 23140352
        (backboneAllocInit .x86 35184372017152 23140352 true) := by
  refine ⟨by decide +kernel, by decide +kernel, fun hs => ?_⟩
  have := (backbone_sound_iff .x86 35184372017152 23140352 (by decide +kernel)
    (by decide +kernel)).mp hs
  revert this
  decide +kernel

end Nosv
