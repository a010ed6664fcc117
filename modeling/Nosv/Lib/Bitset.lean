import Mathlib.Algebra.GroupWithZero.Nat
import Mathlib.Data.Finset.Card
import Mathlib.Data.Finset.Range
import Mathlib.Data.List.GetD
import Mathlib.Order.Bounds.Basic

/-!
# Sets of small numbers in words of 64 bits

Number `n` is bit `n % 64` of word `n / 64`. `test` says which numbers are
in the set, and every operation is described by what it does to `test`; the
searches are described by the least and the greatest number that they find.

The results of `ffs`, `ffsAt` and `fls` count from one, and zero says that
there is none.
-/

namespace Bitset

abbrev Word := BitVec 64

variable {p ws : List Word} {w x : Word} {i j n s start : Nat}

/-! ## Operations -/

def mask (n : Nat) : Word := 1#64 <<< (n % 64)

def zero (words : Nat) : List Word := List.replicate words 0#64

def isset (p : List Word) (n : Nat) : Bool := p.getD (n / 64) 0#64 &&& mask n ≠ 0#64

def set (p : List Word) (n : Nat) : List Word := p.modify (n / 64) (· ||| mask n)

def clear (p : List Word) (n : Nat) : List Word := p.modify (n / 64) (· &&& ~~~mask n)

/-- The lowest bit of a word -/
def ffs (x : Word) : Nat :=
  match (List.range 64).find? fun i => x.getLsbD i with
  | some i => i + 1
  | none => 0

/-- The highest bit of a word -/
def flsWord (x : Word) : Nat :=
  match (List.range 64).reverse.find? fun i => x.getLsbD i with
  | some i => i + 1
  | none => 0

def popcount (x : Word) : Nat := (List.range 64).countP fun i => x.getLsbD i

/-- The search from word `i` on; the mask is for the first word only. -/
def ffsLoop (i : Nat) (mask : Word) : List Word → Nat
  | [] => 0
  | w :: ws =>
      if w &&& mask ≠ 0#64 then ffs (w &&& mask) + i * 64 else ffsLoop (i + 1) (BitVec.allOnes 64) ws

/-- The least number from `start` on -/
def ffsAt (p : List Word) (start : Nat) : Nat :=
  ffsLoop (start / 64) (BitVec.allOnes 64 <<< (start % 64)) (p.drop (start / 64))

/-- The words from the last one on -/
def flsLoop : List Word → Nat
  | [] => 0
  | w :: ws => if w ≠ 0#64 then flsWord w + ws.length * 64 else flsLoop ws

def fls (p : List Word) : Nat := flsLoop p.reverse

def count (p : List Word) : Nat := (p.map popcount).sum

/-! ## The numbers in a set -/

def test (p : List Word) (n : Nat) : Bool := (p.getD (n / 64) 0#64).getLsbD (n % 64)

def toFinset (p : List Word) : Finset Nat := {n ∈ Finset.range (64 * p.length) | test p n = true}

theorem test_cons : test (w :: ws) n = if n < 64 then w.getLsbD n else test ws (n - 64) := by
  unfold test
  split
  · rw [Nat.div_eq_of_lt ‹_›, Nat.mod_eq_of_lt ‹_›]
    rfl
  · obtain ⟨m, rfl⟩ := Nat.exists_eq_add_of_le (Nat.le_of_not_lt ‹_›)
    rw [Nat.add_sub_cancel_left, Nat.add_div_left m (by decide), Nat.add_mod_left]
    rfl

theorem test_of_le (h : 64 * p.length ≤ n) : test p n = false := by
  rw [test, List.getD_eq_default _ _ (by omega), BitVec.getLsbD_zero]

theorem mem_toFinset : n ∈ toFinset p ↔ test p n = true := by
  rw [toFinset, Finset.mem_filter, Finset.mem_range]
  refine and_iff_right_of_imp fun h => ?_
  by_contra hle
  rw [test_of_le (Nat.le_of_not_lt hle)] at h
  cases h

theorem lt_of_mem (h : n ∈ toFinset p) : n < 64 * p.length :=
  Finset.mem_range.mp (Finset.mem_of_mem_filter n h)

theorem test_drop (i : Nat) : test (p.drop i) n = test p (64 * i + n) := by
  unfold test
  rw [List.getD_eq_getElem?_getD, List.getElem?_drop, ← List.getD_eq_getElem?_getD,
    Nat.mul_add_div (by decide), Nat.mul_add_mod]

theorem toFinset_zero (words : Nat) : toFinset (zero words) = ∅ := by
  refine Finset.eq_empty_of_forall_notMem fun n hn => ?_
  have hbit : (zero words).getD (n / 64) 0#64 = 0#64 := by
    unfold zero
    by_cases h : n / 64 < words
    · exact List.getD_replicate _ h
    · rw [List.getD_eq_default _ _ (by simpa using h)]
  rw [mem_toFinset, test, hbit, BitVec.getLsbD_zero] at hn
  cases hn

/-! ## One number -/

theorem getLsbD_mask : (mask n).getLsbD i = decide (i = n % 64) := by
  have hlt : n % 64 < 64 := Nat.mod_lt n (by decide)
  rw [mask, BitVec.getLsbD_shiftLeft, BitVec.getLsbD_one]
  by_cases hin : i = n % 64
  · simp [hin, hlt]
  · by_cases hle : i < n % 64
    · simp [hle, hin]
    · have hne : i - n % 64 ≠ 0 := by omega
      simp [hne, hin]

theorem isset_eq : isset p n = test p n := by
  have hlt : n % 64 < 64 := Nat.mod_lt n (by decide)
  rw [isset, test, Bool.eq_iff_iff, decide_eq_true_eq]
  constructor
  · intro hne
    by_contra hbit
    refine hne (BitVec.eq_of_getLsbD_eq fun i hi => ?_)
    rw [BitVec.getLsbD_and, getLsbD_mask, BitVec.getLsbD_zero, Bool.and_eq_false_iff]
    by_cases hin : i = n % 64
    · exact Or.inl (hin ▸ eq_false_of_ne_true hbit)
    · exact Or.inr (decide_eq_false hin)
  · intro hbit heq
    have hzero : (p.getD (n / 64) 0#64 &&& mask n).getLsbD (n % 64) = false := by
      rw [heq, BitVec.getLsbD_zero]
    rw [BitVec.getLsbD_and, hbit, getLsbD_mask, decide_eq_true rfl] at hzero
    cases hzero

@[simp]
theorem length_set : (set p n).length = p.length := List.length_modify ..

theorem test_set (hn : n < 64 * p.length) : test (set p n) i = (decide (i = n) || test p i) := by
  have hword : n / 64 < p.length := by omega
  have hlt : i % 64 < 64 := Nat.mod_lt i (by decide)
  unfold test set
  by_cases hi : i / 64 = n / 64
  · have hget : (p.modify (n / 64) (· ||| mask n)).getD (n / 64) 0#64
        = p.getD (n / 64) 0#64 ||| mask n := by
      rw [List.getD_eq_getElem?_getD, List.getD_eq_getElem?_getD, List.getElem?_modify_eq,
        List.getElem?_eq_getElem hword]
      rfl
    have hin : i % 64 = n % 64 ↔ i = n := by omega
    rw [hi, hget, BitVec.getLsbD_or, getLsbD_mask, decide_eq_decide.mpr hin, Bool.or_comm]
  · have hget : (p.modify (n / 64) (· ||| mask n)).getD (i / 64) 0#64 = p.getD (i / 64) 0#64 := by
      rw [List.getD_eq_getElem?_getD, List.getD_eq_getElem?_getD,
        List.getElem?_modify_ne _ _ (Ne.symm hi)]
    have hne : i ≠ n := fun h => hi (h ▸ rfl)
    rw [hget, decide_eq_false hne, Bool.false_or]

theorem length_clear : (clear p n).length = p.length := List.length_modify ..

theorem test_clear : test (clear p n) i = (decide (i ≠ n) && test p i) := by
  have hlt : i % 64 < 64 := Nat.mod_lt i (by decide)
  unfold test clear
  by_cases hi : i / 64 = n / 64
  · have hget : (p.modify (n / 64) (· &&& ~~~mask n)).getD (n / 64) 0#64
        = p.getD (n / 64) 0#64 &&& ~~~mask n := by
      rw [List.getD_eq_getElem?_getD, List.getD_eq_getElem?_getD, List.getElem?_modify_eq]
      cases p[n / 64]? with
      | none => exact (BitVec.zero_and).symm
      | some w => rfl
    have hin : i % 64 = n % 64 ↔ i = n := by omega
    rw [hi, hget, BitVec.getLsbD_and, BitVec.getLsbD_not, getLsbD_mask, decide_eq_true hlt,
      decide_eq_decide.mpr hin, Bool.true_and, Bool.and_comm, decide_not]
  · have hget : (p.modify (n / 64) (· &&& ~~~mask n)).getD (i / 64) 0#64 = p.getD (i / 64) 0#64 := by
      rw [List.getD_eq_getElem?_getD, List.getD_eq_getElem?_getD,
        List.getElem?_modify_ne _ _ (Ne.symm hi)]
    have hne : i ≠ n := fun h => hi (h ▸ rfl)
    rw [hget, decide_eq_true hne, Bool.true_and]

theorem toFinset_set (hn : n < 64 * p.length) : toFinset (set p n) = insert n (toFinset p) := by
  ext i
  rw [mem_toFinset, test_set hn, Finset.mem_insert, mem_toFinset, Bool.or_eq_true, decide_eq_true_eq]

/-! ## Searching a word -/

theorem ffs_spec (hx : x ≠ 0#64) :
    ∃ i < 64, ffs x = i + 1 ∧ x.getLsbD i = true ∧ ∀ j < i, x.getLsbD j = false := by
  unfold ffs
  cases hfind : (List.range 64).find? fun i => x.getLsbD i with
  | none =>
      refine absurd (BitVec.eq_of_getLsbD_eq fun i hi => ?_) hx
      have := List.find?_eq_none.mp hfind i (List.mem_range.mpr hi)
      rw [BitVec.getLsbD_zero]
      exact eq_false_of_ne_true this
  | some i =>
      obtain ⟨hbit, hin, hmin⟩ := List.find?_range_eq_some.mp hfind
      refine ⟨i, List.mem_range.mp hin, rfl, hbit, fun j hj => ?_⟩
      simpa using hmin j hj

theorem flsWord_spec (hx : x ≠ 0#64) :
    ∃ i < 64, flsWord x = i + 1 ∧ x.getLsbD i = true ∧ ∀ j, i < j → x.getLsbD j = false := by
  unfold flsWord
  cases hfind : (List.range 64).reverse.find? fun i => x.getLsbD i with
  | none =>
      refine absurd (BitVec.eq_of_getLsbD_eq fun i hi => ?_) hx
      have := List.find?_eq_none.mp hfind i (List.mem_reverse.mpr (List.mem_range.mpr hi))
      rw [BitVec.getLsbD_zero]
      exact eq_false_of_ne_true this
  | some i =>
      obtain ⟨hbit, as, bs, hsplit, hnone⟩ := List.find?_eq_some_iff_append.mp hfind
      have hrange : List.range 64 = bs.reverse ++ i :: as.reverse := by
        rw [← List.reverse_reverse (List.range 64), hsplit]
        simp
      have hi : i < 64 := List.mem_range.mp (by rw [hrange]; simp)
      refine ⟨i, hi, rfl, hbit, fun j hj => ?_⟩
      by_cases hlt : j < 64
      · -- what is above `i` was tried before
        have hin : j ∈ bs.reverse ++ i :: as.reverse := hrange ▸ List.mem_range.mpr hlt
        have hsorted : List.Pairwise (· < ·) (bs.reverse ++ i :: as.reverse) :=
          hrange ▸ List.pairwise_lt_range
        rw [List.pairwise_append] at hsorted
        rcases List.mem_append.mp hin with hbs | hrest
        · exact absurd (hsorted.2.2 j hbs i List.mem_cons_self) (Nat.lt_asymm hj)
        · rcases List.mem_cons.mp hrest with rfl | has
          · exact absurd hj (Nat.lt_irrefl j)
          · have := hnone j (List.mem_reverse.mp has)
            simpa using this
      · exact BitVec.getLsbD_of_ge x j (Nat.le_of_not_lt hlt)

/-! ## Searching a set -/

theorem getLsbD_and_shift (hi : i < 64) :
    (w &&& BitVec.allOnes 64 <<< s).getLsbD i = (w.getLsbD i && decide (s ≤ i)) := by
  rw [BitVec.getLsbD_and, BitVec.getLsbD_shiftLeft, BitVec.getLsbD_allOnes]
  have hsub : i - s < 64 := by omega
  by_cases hle : s ≤ i
  · simp [hle, hi, hsub]
  · simp [hle]

/-- The loop finds the least number from `s` on, or there is none. -/
theorem ffsLoop_spec :
    ∀ (ws : List Word) (i s : Nat), s < 64 →
      (ffsLoop i (BitVec.allOnes 64 <<< s) ws = 0 ∧ ∀ n, s ≤ n → test ws n = false)
      ∨ ∃ n, s ≤ n ∧ ffsLoop i (BitVec.allOnes 64 <<< s) ws = n + 1 + i * 64 ∧ test ws n = true
        ∧ ∀ k, s ≤ k → k < n → test ws k = false
  | [], i, s, _ => Or.inl ⟨rfl, fun n _ => test_of_le (Nat.zero_le n)⟩
  | w :: ws, i, s, hs => by
      have hlow : ∀ k < 64, s ≤ k →
          (w &&& BitVec.allOnes 64 <<< s).getLsbD k = test (w :: ws) k := by
        intro k hk hsk
        rw [getLsbD_and_shift hk, test_cons, if_pos hk, decide_eq_true hsk, Bool.and_true]
      rw [ffsLoop]
      by_cases hzero : w &&& BitVec.allOnes 64 <<< s = 0#64
      · have hnone : ∀ k < 64, s ≤ k → test (w :: ws) k = false := by
          intro k hk hsk
          rw [← hlow k hk hsk, hzero, BitVec.getLsbD_zero]
        rw [if_neg (not_not_intro hzero)]
        have hones : BitVec.allOnes 64 = BitVec.allOnes 64 <<< 0 := (BitVec.shiftLeft_zero _).symm
        rw [hones]
        rcases ffsLoop_spec ws (i + 1) 0 (by decide) with ⟨hres, hrest⟩ | ⟨n, -, hres, hbit, hmin⟩
        · refine Or.inl ⟨hres, fun k hsk => ?_⟩
          by_cases hk : k < 64
          · exact hnone k hk hsk
          · rw [test_cons, if_neg hk]
            exact hrest _ (Nat.zero_le _)
        · refine Or.inr ⟨n + 64, by omega, by rw [hres]; omega, ?_, fun k hsk hkn => ?_⟩
          · rw [test_cons, if_neg (by omega), Nat.add_sub_cancel]
            exact hbit
          · by_cases hk : k < 64
            · exact hnone k hk hsk
            · rw [test_cons, if_neg hk]
              exact hmin _ (Nat.zero_le _) (by omega)
      · rw [if_pos hzero]
        obtain ⟨k, hk, hres, hbit, hmin⟩ := ffs_spec hzero
        rw [getLsbD_and_shift hk, Bool.and_eq_true, decide_eq_true_eq] at hbit
        refine Or.inr ⟨k, hbit.2, by rw [hres], ?_, fun k' hsk hkk => ?_⟩
        · rw [test_cons, if_pos hk]
          exact hbit.1
        · rw [← hlow k' (by omega) hsk]
          exact hmin k' hkk

/-- `ffsAt` gives the least number from `start` on. -/
theorem ffsAt_spec (p : List Word) (start : Nat) :
    (ffsAt p start = 0 ∧ ∀ n ∈ toFinset p, n < start)
    ∨ ∃ n ∈ toFinset p, start ≤ n ∧ ffsAt p start = n + 1 ∧ ∀ k ∈ toFinset p, start ≤ k → n ≤ k := by
  have hdiv := Nat.div_add_mod start 64
  have hstart : ∀ {n}, start ≤ n → ∃ k, start % 64 ≤ k ∧ n = 64 * (start / 64) + k := by
    intro n hn
    exact ⟨n - 64 * (start / 64), by omega, by omega⟩
  rcases ffsLoop_spec (p.drop (start / 64)) (start / 64) (start % 64) (Nat.mod_lt _ (by decide))
    with ⟨hres, hnone⟩ | ⟨n, hsn, hres, hbit, hmin⟩
  · refine Or.inl ⟨hres, fun n hn => ?_⟩
    by_contra hle
    obtain ⟨k, hk, rfl⟩ := hstart (Nat.le_of_not_lt hle)
    have := hnone k hk
    rw [test_drop, mem_toFinset.mp hn] at this
    cases this
  · rw [test_drop] at hbit
    refine Or.inr ⟨64 * (start / 64) + n, mem_toFinset.mpr hbit, by omega, ?_, fun m hm hsm => ?_⟩
    · rw [ffsAt, hres]
      omega
    · obtain ⟨k, hk, rfl⟩ := hstart hsm
      by_contra hlt
      have := hmin k hk (by omega)
      rw [test_drop, mem_toFinset.mp hm] at this
      cases this

theorem flsLoop_spec :
    ∀ ws : List Word, (flsLoop ws = 0 ∧ ∀ n, test ws.reverse n = false)
      ∨ ∃ n, flsLoop ws = n + 1 ∧ test ws.reverse n = true ∧ ∀ k, n < k → test ws.reverse k = false
  | [] => Or.inl ⟨rfl, fun n => test_of_le (Nat.zero_le n)⟩
  | w :: ws => by
      -- the first word of the loop is the last one of the set
      have htest : ∀ n, test (w :: ws).reverse n
          = if n / 64 = ws.length then w.getLsbD (n % 64) else test ws.reverse n := by
        intro n
        unfold test
        rw [List.reverse_cons]
        rcases Nat.lt_trichotomy (n / 64) ws.length with hlt | heq | hgt
        · rw [if_neg (Nat.ne_of_lt hlt), List.getD_append _ _ _ _ (by simpa using hlt)]
        · rw [if_pos heq, List.getD_append_right _ _ _ _ (by simp [heq]), heq]
          simp
        · rw [if_neg (Nat.ne_of_gt hgt), List.getD_eq_default _ _ (by simp; omega),
            List.getD_eq_default _ _ (by simpa using Nat.le_of_lt hgt)]
      rw [flsLoop]
      by_cases hzero : w = 0#64
      · have hsame : ∀ n, test (w :: ws).reverse n = test ws.reverse n := by
          intro n
          rw [htest]
          split
          case isFalse => rfl
          case isTrue heq => rw [hzero, BitVec.getLsbD_zero, test_of_le (by rw [List.length_reverse]; omega)]
        rw [if_neg (not_not_intro hzero)]
        simp only [hsame]
        exact flsLoop_spec ws
      · rw [if_pos hzero]
        obtain ⟨i, hi, hres, hbit, hmax⟩ := flsWord_spec hzero
        refine Or.inr ⟨ws.length * 64 + i, by omega, ?_, fun k hk => ?_⟩
        · rw [htest, if_pos (by omega), show (ws.length * 64 + i) % 64 = i by omega]
          exact hbit
        · rw [htest]
          split
          · exact hmax _ (by omega)
          · exact test_of_le (by rw [List.length_reverse]; omega)

/-- `fls` gives the greatest number. -/
theorem fls_spec (p : List Word) :
    (fls p = 0 ∧ toFinset p = ∅) ∨ ∃ n, fls p = n + 1 ∧ IsGreatest (toFinset p : Set Nat) n := by
  rcases flsLoop_spec p.reverse with ⟨hres, hnone⟩ | ⟨n, hres, hbit, hmax⟩
  · rw [List.reverse_reverse] at hnone
    refine Or.inl ⟨hres, Finset.eq_empty_of_forall_notMem fun n hn => ?_⟩
    rw [mem_toFinset, hnone] at hn
    cases hn
  · rw [List.reverse_reverse] at hbit hmax
    refine Or.inr ⟨n, hres, Finset.mem_coe.mpr (mem_toFinset.mpr hbit), fun k hk => ?_⟩
    by_contra hlt
    rw [Finset.mem_coe, mem_toFinset, hmax k (Nat.lt_of_not_le hlt)] at hk
    cases hk

/-- `count` gives the number of elements. -/
theorem count_eq_countP : ∀ p : List Word, count p = (List.range (64 * p.length)).countP (test p)
  | [] => rfl
  | w :: ws => by
      have hhead : (List.range 64).countP (test (w :: ws)) = popcount w :=
        List.countP_congr fun i hi => by rw [test_cons, if_pos (List.mem_range.mp hi)]
      have htail : ((List.range (64 * ws.length)).map (64 + ·)).countP (test (w :: ws))
          = count ws := by
        rw [count_eq_countP ws, List.countP_map]
        refine List.countP_congr fun i _ => ?_
        rw [Function.comp_apply, test_cons, if_neg (by omega), Nat.add_sub_cancel_left]
      rw [List.length_cons, Nat.mul_add, Nat.mul_one, Nat.add_comm (64 * ws.length), List.range_add,
        List.countP_append, hhead, htail]
      rfl

theorem count_eq_card (p : List Word) : count p = (toFinset p).card := by
  rw [count_eq_countP, List.countP_eq_length_filter, toFinset, Finset.card_def, Finset.filter_val,
    Finset.range_val, Multiset.range, Multiset.filter_coe, Multiset.coe_card]
  simp

end Bitset
