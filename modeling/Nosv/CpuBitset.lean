import Nosv.Lib.Bitset
import Nosv.Lib.CString
import Nosv.TopoInit
import Mathlib.Data.List.Sort
import Mathlib.Data.Set.Card

/-!
# CPU sets and CPU lists

`cpu_bitset_t`, a set of the CPUs below `NR_CPUS` in four words, and
`cpu_bitset_parse_str`, which reads one from a list of CPUs. The caller
gets the value that the function returns and the set; the function does
not return if a loop does not end, and behaves in an undefined way if it
uses an `int` that no conversion has set or that is out of range, or sets a
bit outside the set.
-/

namespace Nosv

open CString Bitset

/-! ## Sets -/

/-- `cpu_bitset_t`, initialized with `NR_CPUS` -/
structure CpuBitset where
  bits : List Word
  length_bits : bits.length = 4

/-- How far a loop or a function has come after some number of iterations -/
inductive Outcome (α : Type) where
  | running
  | undefined
  | ended (a : α)
  deriving DecidableEq

namespace CpuBitset

def cpus (set : CpuBitset) : Finset Nat := toFinset set.bits

/-- `cpu_bitset_init` -/
def init : CpuBitset := ⟨zero 4, List.length_replicate⟩

/-- `cpu_bitset_isset` -/
def isset (set : CpuBitset) (cpu : Nat) : Bool := Bitset.isset set.bits cpu

/-- `cpu_bitset_set` -/
def set (set : CpuBitset) (cpu : Nat) : CpuBitset :=
  ⟨Bitset.set set.bits cpu, length_set.trans set.length_bits⟩

/-- `cpu_bitset_count` -/
def count (set : CpuBitset) : Nat := Bitset.count set.bits

/-- `cpu_bitset_ffs` -/
def ffs (set : CpuBitset) : Int := ffsAt set.bits 0 - 1

/-- `cpu_bitset_ffs_at`, where its assertion holds -/
def ffsAfter (set : CpuBitset) (startCpu : Nat) : Int := ffsAt set.bits (startCpu + 1) - 1

/-- `cpu_bitset_fls` -/
def fls (set : CpuBitset) : Int := Bitset.fls set.bits - 1

/-- The CPUs that `CPU_BITSET_FOREACH` visits from `var` on, if it ends
within `n` iterations -/
def foreachFrom (set : CpuBitset) : Nat → Int → Option (List Nat)
  | 0, _ => none
  | n + 1, var =>
      if 0 ≤ var then (set.foreachFrom n (set.ffsAfter var.toNat)).map (var.toNat :: ·) else some []

/-- `CPU_BITSET_FOREACH` -/
def foreach (set : CpuBitset) (n : Nat) : Option (List Nat) := set.foreachFrom n set.ffs

/-! ## `cpu_bitset_parse_str` -/

/-- Representable in an `int` -/
def FitsInt (i : Int) : Prop := -2147483648 ≤ i ∧ i ≤ 2147483647

instance (i : Int) : Decidable (FitsInt i) := inferInstanceAs (Decidable (_ ∧ _))

/-- The loop that sets the CPUs of a range -/
def setRange (last stride : Int) : Nat → CpuBitset → Int → Outcome CpuBitset
  | 0, _, _ => .running
  | n + 1, set, i =>
      if i ≤ last then
        if 0 ≤ i ∧ i < topoNrCpus then
          if FitsInt (i + stride) then setRange last stride n (set.set i.toNat) (i + stride)
          else .undefined
        else .undefined
      else .ended set

/-- `first_id`, `last_id` and `stride` after the `switch` on the number of
conversions -/
def rangeOf : List Int → Option (Int × Int × Int)
  | [] => none
  | [firstId] => some (firstId, firstId, 1)
  | [firstId, lastId] => some (firstId, lastId, 1)
  | firstId :: lastId :: stride :: _ => some (firstId, lastId, stride)

/-- The loop over the tokens. `ret` of the function stays 0: where the
source assigns 1, the name is that of the variable in the loop body. -/
def parseTokens (n : Nat) : CpuBitset → List (List Char) → Outcome (Int × CpuBitset)
  | set, [] => .ended (0, set)
  | set, tok :: toks =>
      match sscanf ['-', ':'] tok with
      -- `EOF` is no case of the `switch`
      | none => .undefined
      | some ids =>
          if ∀ id ∈ ids, FitsInt id then
            match rangeOf ids with
            | none => .ended (0, set)
            | some (firstId, lastId, stride) =>
                if lastId < firstId then .ended (0, set)
                else
                  match setRange lastId stride n set firstId with
                  | .running => .running
                  | .undefined => .undefined
                  | .ended set => parseTokens n set toks
          else .undefined

/-- `cpu_bitset_parse_str` -/
def parseStr (n : Nat) (s : List Char) : Outcome (Int × CpuBitset) := parseTokens n init (strtok ',' s)

end CpuBitset

/-! ## CPU lists -/

/-- An item of a CPU list, with the numbers as they are written -/
inductive CpuItem where
  | single (a : List Char)
  | range (a b : List Char)
  | strided (a b s : List Char)

namespace CpuItem

def numerals : CpuItem → List (List Char)
  | single a => [a]
  | range a b => [a, b]
  | strided a b s => [a, b, s]

def text : CpuItem → List Char
  | single a => a
  | range a b => a ++ '-' :: b
  | strided a b s => a ++ '-' :: (b ++ ':' :: s)

def first : CpuItem → Nat
  | single a | range a _ | strided a _ _ => digitsValue a

def last : CpuItem → Nat
  | single a => digitsValue a
  | range _ b | strided _ b _ => digitsValue b

def stride : CpuItem → Nat
  | single _ | range _ _ => 1
  | strided _ _ s => digitsValue s

structure WellFormed (item : CpuItem) : Prop where
  numerals : ∀ digits ∈ item.numerals, IsNumeral digits
  le : item.first ≤ item.last
  lt : item.last < topoNrCpus
  pos : 1 ≤ item.stride

/-- The CPUs that the item stands for -/
def Has : CpuItem → Nat → Prop
  | single a, cpu => cpu = digitsValue a
  | range a b, cpu => digitsValue a ≤ cpu ∧ cpu ≤ digitsValue b
  | strided a b s, cpu => ∃ k, cpu = digitsValue a + k * digitsValue s ∧ cpu ≤ digitsValue b

/-- The first number of the progression that is not a CPU of the item -/
def beyond (item : CpuItem) : Nat :=
  item.first + ((item.last - item.first) / item.stride + 1) * item.stride

end CpuItem

/-- The CPUs that a list of items stands for -/
def listedCpus (items : List CpuItem) : Set Nat := {cpu | ∃ item ∈ items, item.Has cpu}

/-- The text is a CPU list of these items. -/
structure IsCpuList (s : List Char) (items : List CpuItem) : Prop where
  nonempty : items ≠ []
  wellFormed : ∀ item ∈ items, item.WellFormed
  text : s = [','].intercalate (items.map CpuItem.text)
    ∨ s = [','].intercalate (items.map CpuItem.text) ++ ['\n']

namespace CpuBitset

variable {set set' : CpuBitset} {n i last stride : Nat} {item : CpuItem}

theorem mem_cpus_iff {cpu : Nat} : cpu ∈ set.cpus ↔ set.isset cpu = true := by
  rw [cpus, mem_toFinset, isset, isset_eq]

theorem lt_of_mem_cpus {cpu : Nat} (h : cpu ∈ set.cpus) : cpu < topoNrCpus := by
  have := lt_of_mem h
  rwa [set.length_bits] at this

@[simp]
theorem cpus_init : init.cpus = ∅ := toFinset_zero 4

theorem cpus_set (h : i < topoNrCpus) : (set.set i).cpus = insert i set.cpus :=
  toFinset_set (by rw [set.length_bits]; exact h)

/-! ## Iteration -/

/-- The loop visits the CPUs from the one that a search has found on. -/
theorem foreachFrom_spec {start : Nat} (hstart : start ≤ topoNrCpus) (hn : topoNrCpus < start + n) :
    ∃ l, set.foreachFrom n (ffsAt set.bits start - 1) = some l ∧ l.Pairwise (· < ·)
      ∧ ∀ cpu, cpu ∈ l ↔ cpu ∈ set.cpus ∧ start ≤ cpu := by
  induction n generalizing start with
  | zero => omega
  | succ n ih =>
      rw [foreachFrom]
      rcases ffsAt_spec set.bits start with ⟨hres, hnone⟩ | ⟨c, hc, hsc, hres, hmin⟩
      · refine ⟨[], ?_, List.Pairwise.nil, fun cpu => ?_⟩
        · rw [hres]
          rfl
        · refine iff_of_false List.not_mem_nil fun h => ?_
          exact Nat.not_le_of_lt (hnone cpu h.1) h.2
      · have hlt : c < topoNrCpus := lt_of_mem_cpus hc
        obtain ⟨l, hl, hsorted, hmem⟩ := ih (Nat.succ_le_of_lt hlt) (by omega)
        have hvar : (ffsAt set.bits start : Int) - 1 = c := by rw [hres]; omega
        refine ⟨c :: l, ?_, List.pairwise_cons.mpr ⟨fun d hd => ((hmem d).mp hd).2, hsorted⟩,
          fun cpu => ?_⟩
        · rw [hvar, if_pos (Int.natCast_nonneg c), Int.toNat_natCast, ffsAfter, hl]
          rfl
        · rw [List.mem_cons, hmem]
          constructor
          · rintro (rfl | ⟨hin, hle⟩)
            · exact ⟨hc, hsc⟩
            · exact ⟨hin, by omega⟩
          · rintro ⟨hin, hle⟩
            have := hmin cpu hin hle
            by_cases heq : cpu = c
            · exact Or.inl heq
            · exact Or.inr ⟨hin, by omega⟩

/-- `CPU_BITSET_FOREACH` visits the CPUs of the set in order. -/
theorem foreach_spec (set : CpuBitset) :
    ∃ n l, set.foreach n = some l ∧ l.Pairwise (· < ·) ∧ ∀ cpu, cpu ∈ l ↔ cpu ∈ set.cpus := by
  obtain ⟨l, hl, hsorted, hmem⟩ := @foreachFrom_spec set (topoNrCpus + 1) 0
    (Nat.zero_le topoNrCpus) (by omega)
  exact ⟨_, l, hl, hsorted, fun cpu => (hmem cpu).trans (and_iff_left (Nat.zero_le cpu))⟩

/-- It is the order in which the topology goes through the CPUs. -/
theorem foreach_eq_forEachCpu {l : List Nat} (hl : set.foreach n = some l) (hn : topoNrCpus < n) :
    l = forEachCpu set.cpus := by
  obtain ⟨l', hl', hsorted, hmem⟩ := @foreachFrom_spec set n 0 (Nat.zero_le topoNrCpus)
    (by omega)
  obtain rfl : l' = l := Option.some.inj (hl'.symm.trans hl)
  refine List.Perm.eq_of_pairwise' (r := (· < ·)) hsorted (List.pairwise_lt_range.filter _) ?_
  refine (List.perm_ext_iff_of_nodup hsorted.nodup (List.nodup_range.filter _)).mpr fun cpu => ?_
  rw [hmem, List.mem_filter, List.mem_range, decide_eq_true_eq]
  exact ⟨fun h => ⟨lt_of_mem_cpus h.1, h.1⟩, fun h => ⟨h.2, Nat.zero_le cpu⟩⟩

theorem ffs_spec (h : set.cpus.Nonempty) : ∃ c : Nat, set.ffs = c ∧ IsLeast (set.cpus : Set Nat) c := by
  rcases ffsAt_spec set.bits 0 with ⟨-, hnone⟩ | ⟨c, hc, -, hres, hmin⟩
  · obtain ⟨c, hc⟩ := h
    exact absurd (hnone c hc) (Nat.not_lt_zero c)
  · exact ⟨c, by rw [ffs, hres]; omega, hc, fun d hd => hmin d hd (Nat.zero_le d)⟩

theorem fls_spec (h : set.cpus.Nonempty) :
    ∃ c : Nat, set.fls = c ∧ IsGreatest (set.cpus : Set Nat) c := by
  rcases Bitset.fls_spec set.bits with ⟨-, hnone⟩ | ⟨c, hres, hmax⟩
  · exact absurd hnone h.ne_empty
  · exact ⟨c, by rw [fls, hres]; omega, hmax⟩

theorem count_eq_card : set.count = set.cpus.card := Bitset.count_eq_card set.bits

/-! ## Ranges -/

/-- The CPUs from `i` to `last` in steps of `stride` -/
def Progression (i last stride cpu : Nat) : Prop := ∃ k, cpu = i + k * stride ∧ cpu ≤ last

theorem progression_step {cpu : Nat} (hi : i ≤ last) :
    Progression i last stride cpu ↔ cpu = i ∨ Progression (i + stride) last stride cpu := by
  constructor
  · rintro ⟨k, rfl, hle⟩
    cases k with
    | zero => exact Or.inl (by omega)
    | succ k => exact Or.inr ⟨k, by rw [Nat.succ_mul]; omega, hle⟩
  · rintro (rfl | ⟨k, rfl, hle⟩)
    · exact ⟨0, by omega, hi⟩
    · exact ⟨k + 1, by rw [Nat.succ_mul]; omega, hle⟩

/-- Where the loop stops -/
def stop (i last stride : Nat) : Nat := i + ((last - i) / stride + 1) * stride

theorem stop_step (hpos : 1 ≤ stride) (hi : i + stride ≤ last) :
    stop (i + stride) last stride = stop i last stride := by
  have hdiv : (last - i) / stride = (last - (i + stride)) / stride + 1 := by
    rw [← Nat.add_div_right _ hpos]
    congr 1
    omega
  rw [stop, stop, hdiv, Nat.succ_mul ((last - (i + stride)) / stride + 1)]
  omega

theorem stop_last (hpos : 1 ≤ stride) (hi : last < i + stride) : stop i last stride = i + stride := by
  rw [stop, Nat.div_eq_of_lt (by omega)]
  omega

theorem add_stride_le_stop : i + stride ≤ stop i last stride := by
  rw [stop, Nat.add_mul]
  omega

/-- The loop sets the CPUs of the range, if the number at which it stops is
an `int`. -/
theorem setRange_ended (hpos : 1 ≤ stride) (hlast : last < topoNrCpus) :
    ∀ {n : Nat} {set : CpuBitset} {i : Nat}, i ≤ last → stop i last stride ≤ 2147483647 →
      last + 1 < i + n →
      ∃ set', setRange last stride n set i = .ended set'
        ∧ ∀ cpu, cpu ∈ set'.cpus ↔ cpu ∈ set.cpus ∨ Progression i last stride cpu := by
  intro n
  induction n with
  | zero => exact fun hi _ hn => absurd hn (by omega)
  | succ n ih =>
      intro set i hi hstop hn
      have hlt : i < topoNrCpus := by omega
      have hnext : i + stride ≤ stop i last stride := add_stride_le_stop
      have hfits : FitsInt ((i : Int) + stride) := ⟨by omega, by omega⟩
      have hcast : (i : Int) + stride = ((i + stride : Nat) : Int) := by omega
      rw [setRange, if_pos (by omega), if_pos ⟨by omega, by omega⟩, if_pos hfits, Int.toNat_natCast, hcast]
      by_cases hmore : i + stride ≤ last
      · obtain ⟨set', hset', hcpus⟩ := @ih (set.set i) (i + stride) hmore
          (by rw [stop_step hpos hmore]; exact hstop) (by omega)
        refine ⟨set', hset', fun cpu => ?_⟩
        rw [hcpus, cpus_set hlt, Finset.mem_insert, progression_step hi]
        tauto
      · refine ⟨set.set i, ?_, fun cpu => ?_⟩
        · cases n with
          | zero => omega
          | succ n => rw [setRange, if_neg (by omega)]
        · rw [cpus_set hlt, Finset.mem_insert, progression_step hi]
          have hnone : ¬ Progression (i + stride) last stride cpu := by
            rintro ⟨k, rfl, hle⟩
            omega
          tauto

/-- Else `i += stride` leaves the range of an `int`. -/
theorem setRange_overflow (hpos : 1 ≤ stride) :
    ∀ {n : Nat} {set : CpuBitset} {i : Nat}, i ≤ last → 2147483647 < stop i last stride →
      ∀ set', setRange last stride n set i ≠ .ended set' := by
  intro n
  induction n with
  | zero =>
      intro set i _ _ set' hset
      cases hset
  | succ n ih =>
      intro set i hi hstop set' hset
      rw [setRange, if_pos (by omega)] at hset
      split at hset
      case isFalse => cases hset
      split at hset
      case isFalse => cases hset
      case isTrue hfits =>
        have hcast : (i : Int) + stride = ((i + stride : Nat) : Int) := by omega
        rw [hcast] at hset
        by_cases hmore : i + stride ≤ last
        · exact ih hmore (by rw [stop_step hpos hmore]; exact hstop) set' hset
        · rw [stop_last hpos (by omega)] at hstop
          have := hfits.2
          omega

/-! ## Items -/

theorem has_iff {cpu : Nat} : item.Has cpu ↔ Progression item.first item.last item.stride cpu := by
  cases item with
  | single a =>
      constructor
      · rintro rfl
        exact ⟨0, rfl, Nat.le_refl _⟩
      · rintro ⟨k, rfl, hle⟩
        change digitsValue a + k * 1 ≤ digitsValue a at hle
        change digitsValue a + k * 1 = digitsValue a
        omega
  | range a b =>
      constructor
      · rintro ⟨hlow, hhigh⟩
        refine ⟨cpu - digitsValue a, ?_, hhigh⟩
        change cpu = digitsValue a + (cpu - digitsValue a) * 1
        omega
      · rintro ⟨k, rfl, hle⟩
        exact ⟨Nat.le_add_right _ _, hle⟩
  | strided a b s => exact Iff.rfl

/-- The token of an item; the newline is at the end of the last one. -/
def IsToken (item : CpuItem) (tok : List Char) : Prop := tok = item.text ∨ tok = item.text ++ ['\n']

theorem IsToken.exists_rest {tok : List Char} (h : IsToken item tok) :
    ∃ rest, tok = item.text ++ rest ∧ (rest = [] ∨ rest = ['\n']) := by
  rcases h with rfl | rfl
  · exact ⟨[], (List.append_nil _).symm, Or.inl rfl⟩
  · exact ⟨['\n'], rfl, Or.inr rfl⟩

/-- `sscanf` finds the numbers of an item. -/
theorem sscanf_item (hnum : ∀ digits ∈ item.numerals, IsNumeral digits) {tok : List Char}
    (htok : IsToken item tok) :
    sscanf ['-', ':'] tok = some (item.numerals.map fun digits => (digitsValue digits : Int)) := by
  obtain ⟨rest, rfl, hrest⟩ := htok.exists_rest
  have hstops : Stops rest := by
    rcases hrest with rfl | rfl
    · exact stops_nil
    · exact stops_cons.mpr (by decide)
  have hnone : ∀ sep, sep ≠ '\n' → rest.head? ≠ some sep := by
    intro sep hsep
    rcases hrest with rfl | rfl
    · exact fun h => nomatch h
    · exact fun h => hsep (Option.some.inj h).symm
  cases item with
  | single a =>
      rw [CpuItem.text, sscanf_numeral (hnum a (by simp [CpuItem.numerals])) hstops,
        scanMore_stop (hnone '-' (by decide))]
      rfl
  | range a b =>
      rw [CpuItem.text, List.append_assoc, List.cons_append,
        sscanf_numeral (hnum a (by simp [CpuItem.numerals])) (stops_cons.mpr (by decide)),
        scanMore_sep (hnum b (by simp [CpuItem.numerals])) hstops, scanMore_stop (hnone ':' (by decide))]
      rfl
  | strided a b s =>
      rw [CpuItem.text, List.append_assoc, List.cons_append, List.append_assoc, List.cons_append,
        sscanf_numeral (hnum a (by simp [CpuItem.numerals])) (stops_cons.mpr (by decide)),
        scanMore_sep (hnum b (by simp [CpuItem.numerals])) (stops_cons.mpr (by decide)),
        scanMore_sep (hnum s (by simp [CpuItem.numerals])) hstops, scanMore]
      rfl

theorem rangeOf_item :
    rangeOf (item.numerals.map fun digits => (digitsValue digits : Int))
      = some ((item.first : Int), (item.last : Int), (item.stride : Int)) := by
  cases item <;> rfl

theorem stride_le_beyond : item.stride ≤ item.beyond :=
  (Nat.le_add_left _ _).trans (add_stride_le_stop : item.first + item.stride ≤ item.beyond)

theorem fitsInt_natCast {k : Nat} : FitsInt (k : Int) ↔ k ≤ 2147483647 :=
  ⟨fun h => Int.ofNat_le.mp h.2, fun h => ⟨by omega, Int.ofNat_le.mpr h⟩⟩

/-- The numbers of an item are in the range of an `int` if its stride is. -/
theorem fitsInt_numerals (h : item.WellFormed) :
    (∀ id ∈ item.numerals.map (fun digits => (digitsValue digits : Int)), FitsInt id)
      ↔ item.stride ≤ 2147483647 := by
  have hle := h.le
  have hlast : item.last ≤ 2147483647 := Nat.le_of_lt (h.lt.trans (by decide))
  cases item with
  | single a =>
      refine iff_of_true (fun id hid => ?_) (by decide : 1 ≤ 2147483647)
      obtain rfl := List.mem_singleton.mp hid
      exact fitsInt_natCast.mpr hlast
  | range a b =>
      refine iff_of_true (fun id hid => ?_) (by decide : 1 ≤ 2147483647)
      rcases List.mem_pair.mp hid with rfl | rfl
      · exact fitsInt_natCast.mpr (hle.trans hlast)
      · exact fitsInt_natCast.mpr hlast
  | strided a b s =>
      constructor
      · intro hfits
        exact fitsInt_natCast.mp (hfits (digitsValue s) (by simp [CpuItem.numerals]))
      · intro hs id hid
        have hid : id ∈ [(digitsValue a : Int), digitsValue b, digitsValue s] := hid
        rcases List.mem_cons.mp hid with rfl | hid
        · exact fitsInt_natCast.mpr (hle.trans hlast)
        rcases List.mem_pair.mp hid with rfl | rfl
        · exact fitsInt_natCast.mpr hlast
        · exact fitsInt_natCast.mpr hs

/-! ## Lists -/

/-- The token of a well-formed item is one more range. -/
theorem parseTokens_item {tok : List Char} {toks : List (List Char)} (h : item.WellFormed)
    (htok : IsToken item tok) (hfits : item.stride ≤ 2147483647) :
    parseTokens n set (tok :: toks) =
      match setRange item.last item.stride n set item.first with
      | .running => .running
      | .undefined => .undefined
      | .ended set => parseTokens n set toks := by
  rw [parseTokens, sscanf_item h.numerals htok]
  dsimp only
  rw [if_pos ((fitsInt_numerals h).mpr hfits), rangeOf_item]
  dsimp only
  have hle : ¬ (item.last : Int) < item.first := by
    have := h.le
    omega
  rw [if_neg hle]

theorem parseTokens_ended {items : List CpuItem} {toks : List (List Char)}
    (htoks : List.Forall₂ IsToken items toks) (h : ∀ item ∈ items, item.WellFormed)
    (hfits : ∀ item ∈ items, item.beyond ≤ 2147483647) (hn : topoNrCpus < n) (set : CpuBitset) :
    ∃ set', parseTokens n set toks = .ended (0, set')
      ∧ ∀ cpu, cpu ∈ set'.cpus ↔ cpu ∈ set.cpus ∨ ∃ item ∈ items, item.Has cpu := by
  induction htoks generalizing set with
  | nil => exact ⟨set, rfl, fun cpu => by simp⟩
  | @cons item tok items toks htok _ ih =>
      have hitem := h item List.mem_cons_self
      have hbeyond := hfits item List.mem_cons_self
      have hlt := hitem.lt
      obtain ⟨set₁, hset₁, hcpus₁⟩ := setRange_ended hitem.pos hlt hitem.le hbeyond
        (by omega : item.last + 1 < item.first + n)
      obtain ⟨set', hset', hcpus'⟩ := ih (fun i hi => h i (List.mem_cons_of_mem _ hi))
        (fun i hi => hfits i (List.mem_cons_of_mem _ hi)) set₁
      refine ⟨set', ?_, fun cpu => ?_⟩
      · rw [parseTokens_item hitem htok (stride_le_beyond.trans hbeyond), hset₁]
        exact hset'
      · rw [hcpus', hcpus₁, ← has_iff, List.exists_mem_cons_iff, or_assoc]

theorem parseTokens_overflow {items : List CpuItem} {toks : List (List Char)}
    (htoks : List.Forall₂ IsToken items toks) (h : ∀ item ∈ items, item.WellFormed)
    (hover : ∃ item ∈ items, 2147483647 < item.beyond) (set : CpuBitset) (res : Int × CpuBitset) :
    parseTokens n set toks ≠ .ended res := by
  induction htoks generalizing set with
  | nil => exact fun _ => nomatch hover
  | @cons item tok items toks htok _ ih =>
      intro hres
      have hitem := h item List.mem_cons_self
      by_cases hfits : item.stride ≤ 2147483647
      · rw [parseTokens_item hitem htok hfits] at hres
        split at hres
        · cases hres
        · cases hres
        case h_3 set₁ hset₁ =>
          rw [List.exists_mem_cons_iff] at hover
          rcases hover with hover | hover
          · exact setRange_overflow hitem.pos hitem.le hover set₁ hset₁
          · exact ih (fun i hi => h i (List.mem_cons_of_mem _ hi)) hover set₁ hres
      · rw [parseTokens, sscanf_item hitem.numerals htok] at hres
        dsimp only at hres
        rw [if_neg (mt (fitsInt_numerals hitem).mp hfits)] at hres
        cases hres

/-- The function returns 0 whenever it returns. -/
theorem parseTokens_ret {toks : List (List Char)} {ret : Int}
    (h : parseTokens n set toks = .ended (ret, set')) : ret = 0 := by
  induction toks generalizing set with
  | nil => cases h; rfl
  | cons tok toks ih =>
      rw [parseTokens] at h
      split at h
      · cases h
      split at h
      case isFalse => cases h
      split at h
      · cases h; rfl
      split at h
      · cases h; rfl
      split at h
      · cases h
      · cases h
      · exact ih h

/-- No comma stands in an item. -/
theorem comma_notMem_text (hnum : ∀ digits ∈ item.numerals, IsNumeral digits) : ',' ∉ item.text := by
  have hdigits : ∀ digits ∈ item.numerals, ',' ∉ digits := fun digits hd hin =>
    absurd ((hnum digits hd).digits ',' hin) (by decide)
  cases item with
  | single a => exact hdigits a (by simp [CpuItem.numerals])
  | range a b =>
      have ha := hdigits a (by simp [CpuItem.numerals])
      have hb := hdigits b (by simp [CpuItem.numerals])
      simp [CpuItem.text, ha, hb]
  | strided a b s =>
      have ha := hdigits a (by simp [CpuItem.numerals])
      have hb := hdigits b (by simp [CpuItem.numerals])
      have hs := hdigits s (by simp [CpuItem.numerals])
      simp [CpuItem.text, ha, hb, hs]

theorem text_ne_nil (hnum : ∀ digits ∈ item.numerals, IsNumeral digits) : item.text ≠ [] := by
  cases item with
  | single a => exact (hnum a (by simp [CpuItem.numerals])).nonempty
  | range a b => exact List.append_ne_nil_of_right_ne_nil _ (List.cons_ne_nil _ _)
  | strided a b s => exact List.append_ne_nil_of_right_ne_nil _ (List.cons_ne_nil _ _)

/-- The tokens of a list are those of its items. -/
theorem isToken_strtok {s : List Char} {items : List CpuItem} (h : IsCpuList s items) :
    List.Forall₂ IsToken items (strtok ',' s) := by
  have hnum := fun item hitem => (h.wellFormed item hitem).numerals
  rcases h.text with rfl | rfl
  · rw [strtok_intercalate]
    · exact List.forall₂_map_right_iff.mpr (List.forall₂_same.mpr fun item _ => Or.inl rfl)
    · intro field hfield
      obtain ⟨item, hitem, rfl⟩ := List.mem_map.mp hfield
      exact ⟨text_ne_nil (hnum item hitem), comma_notMem_text (hnum item hitem)⟩
  · obtain hnil | ⟨front, last, rfl⟩ := List.eq_nil_or_concat' items
    · exact absurd hnil h.nonempty
    rw [List.map_append, List.map_singleton, intercalate_append, strtok_intercalate]
    · refine List.rel_append ?_ (List.forall₂_cons.mpr ⟨Or.inr rfl, List.Forall₂.nil⟩)
      exact List.forall₂_map_right_iff.mpr (List.forall₂_same.mpr fun item _ => Or.inl rfl)
    · intro field hfield
      rcases List.mem_append.mp hfield with hfront | hlast
      · obtain ⟨item, hitem, rfl⟩ := List.mem_map.mp hfront
        have hitem := hnum item (List.mem_append_left _ hitem)
        exact ⟨text_ne_nil hitem, comma_notMem_text hitem⟩
      · obtain rfl := List.mem_singleton.mp hlast
        have hlast := hnum last (List.mem_append_right _ List.mem_cons_self)
        refine ⟨List.append_ne_nil_of_left_ne_nil (text_ne_nil hlast) _, fun hin => ?_⟩
        rcases List.mem_append.mp hin with hin | hin
        · exact comma_notMem_text hlast hin
        · exact absurd hin (by decide)

/-- If no range ends where the next number is not an `int`, a CPU list gives
the CPUs of its items. -/
theorem parseStr_ended {s : List Char} {items : List CpuItem} (h : IsCpuList s items)
    (hfits : ∀ item ∈ items, item.beyond ≤ 2147483647) (hn : topoNrCpus < n) :
    ∃ set, parseStr n s = .ended (0, set) ∧ (set.cpus : Set Nat) = listedCpus items := by
  obtain ⟨set, hset, hcpus⟩ := parseTokens_ended (isToken_strtok h) h.wellFormed hfits hn init
  refine ⟨set, hset, Set.ext fun cpu => ?_⟩
  rw [Finset.mem_coe, hcpus, cpus_init]
  exact or_iff_right (Finset.notMem_empty cpu)

theorem fits_of_ended {s : List Char} {items : List CpuItem} (h : IsCpuList s items)
    {res : Int × CpuBitset} (hres : parseStr n s = .ended res) :
    ∀ item ∈ items, item.beyond ≤ 2147483647 := by
  intro item hitem
  by_contra hover
  exact parseTokens_overflow (isToken_strtok h) h.wellFormed ⟨item, hitem, Nat.lt_of_not_le hover⟩ init res
    hres

theorem listedCpus_nonempty {s : List Char} {items : List CpuItem} (h : IsCpuList s items) :
    (listedCpus items).Nonempty := by
  obtain ⟨item, items, rfl⟩ := List.exists_cons_of_ne_nil h.nonempty
  have hitem := h.wellFormed item List.mem_cons_self
  exact ⟨item.first, item, List.mem_cons_self, has_iff.mpr ⟨0, by omega, hitem.le⟩⟩

/-- A CPU list is read as the CPUs of its items, and the iteration, the
count and the searches agree with it, exactly when no range ends so close to
the greatest `int` that its next number is beyond it. -/
theorem cpu_list_meaning {s : List Char} {items : List CpuItem} (h : IsCpuList s items) :
    (∃ n set, parseStr n s = .ended (0, set) ∧ (set.cpus : Set Nat) = listedCpus items
      ∧ (∃ m l, set.foreach m = some l ∧ l.Pairwise (· < ·) ∧ ∀ cpu, cpu ∈ l ↔ cpu ∈ listedCpus items)
      ∧ set.count = (listedCpus items).ncard
      ∧ (∃ c : Nat, set.ffs = c ∧ IsLeast (listedCpus items) c)
      ∧ ∃ c : Nat, set.fls = c ∧ IsGreatest (listedCpus items) c)
      ↔ ∀ item ∈ items, item.beyond ≤ 2147483647 := by
  constructor
  · rintro ⟨n, set, hset, -⟩
    exact fits_of_ended h hset
  · intro hfits
    obtain ⟨set, hset, hcpus⟩ := parseStr_ended (n := topoNrCpus + 1) h hfits (Nat.lt_succ_self _)
    obtain ⟨m, l, hl, hsorted, hmem⟩ := foreach_spec set
    have hne : set.cpus.Nonempty := by
      rw [← Finset.coe_nonempty, hcpus]
      exact listedCpus_nonempty h
    refine ⟨_, set, hset, hcpus, ⟨m, l, hl, hsorted, fun cpu => ?_⟩, ?_, ?_, ?_⟩
    · rw [hmem, ← hcpus, Finset.mem_coe]
    · rw [count_eq_card, ← hcpus, Set.ncard_coe_finset]
    · rw [← hcpus]
      exact ffs_spec hne
    · rw [← hcpus]
      exact fls_spec hne

/-- `0-3,8-11:2` -/
def cpuListExample : List CpuItem := [.range ['0'] ['3'], .strided ['8'] ['1', '1'] ['2']]

theorem isCpuList_example : IsCpuList "0-3,8-11:2".toList cpuListExample where
  nonempty := List.cons_ne_nil _ _
  wellFormed := by
    intro item hitem
    rcases List.mem_pair.mp hitem with rfl | rfl
    · exact ⟨by decide, by decide, by decide, by decide⟩
    · exact ⟨by decide, by decide, by decide, by decide⟩
  text := Or.inl rfl

theorem cpu_list_meaning_example :
    (∃ n set, parseStr n "0-3,8-11:2".toList = .ended (0, set)
      ∧ (set.cpus : Set Nat) = listedCpus cpuListExample
      ∧ (∃ m l, set.foreach m = some l ∧ l.Pairwise (· < ·)
        ∧ ∀ cpu, cpu ∈ l ↔ cpu ∈ listedCpus cpuListExample)
      ∧ set.count = (listedCpus cpuListExample).ncard
      ∧ (∃ c : Nat, set.ffs = c ∧ IsLeast (listedCpus cpuListExample) c)
      ∧ ∃ c : Nat, set.fls = c ∧ IsGreatest (listedCpus cpuListExample) c)
      ↔ ∀ item ∈ cpuListExample, item.beyond ≤ 2147483647 :=
  cpu_list_meaning isCpuList_example

/-- `1-1:2147483647` -/
def hugeStride : List CpuItem := [.strided ['1'] ['1'] ['2', '1', '4', '7', '4', '8', '3', '6', '4', '7']]

theorem isCpuList_hugeStride : IsCpuList "1-1:2147483647".toList hugeStride where
  nonempty := List.cons_ne_nil _ _
  wellFormed := by
    intro item hitem
    obtain rfl := List.mem_singleton.mp hitem
    exact ⟨by decide, by decide, by decide, by decide⟩
  text := Or.inl rfl

/-- After CPU 1, `i += stride` is beyond the greatest `int`. -/
theorem cpu_list_overflows :
    IsCpuList "1-1:2147483647".toList hugeStride
      ∧ ∀ n res, parseStr n "1-1:2147483647".toList ≠ .ended res := by
  refine ⟨isCpuList_hugeStride, fun n res hres => ?_⟩
  exact absurd (fits_of_ended isCpuList_hugeStride hres _ (List.mem_singleton.mpr rfl)) (by decide)

/-- What the function is to do with any string: to return 0 for a CPU list
and 1 for any other string. The bits that it sets are in the set, as it
does not behave in an undefined way. -/
def AcceptsGrammar (s : List Char) : Prop :=
  ∃ n ret set, parseStr n s = .ended (ret, set) ∧ (ret = 0 ↔ ∃ items, IsCpuList s items)
    ∧ ((¬ ∃ items, IsCpuList s items) → ret = 1)

/-- It does so for CPU lists without an overflow, and for no other string. -/
theorem acceptsGrammar_iff (s : List Char) :
    AcceptsGrammar s
      ↔ ∃ items, IsCpuList s items ∧ ∀ item ∈ items, item.beyond ≤ 2147483647 := by
  constructor
  · rintro ⟨n, ret, set, hres, hzero, -⟩
    obtain ⟨items, hitems⟩ := hzero.mp (parseTokens_ret hres)
    exact ⟨items, hitems, fits_of_ended hitems hres⟩
  · rintro ⟨items, hitems, hfits⟩
    obtain ⟨set, hset, -⟩ := parseStr_ended (n := topoNrCpus + 1) hitems hfits (Nat.lt_succ_self _)
    exact ⟨_, 0, set, hset, iff_of_true rfl ⟨items, hitems⟩, fun hnone => absurd ⟨items, hitems⟩ hnone⟩

/-- `abc` is not rejected. -/
theorem not_acceptsGrammar_word :
    (¬ ∃ items, IsCpuList "abc".toList items) ∧ parseStr 1 "abc".toList = .ended (0, init)
      ∧ ¬ AcceptsGrammar "abc".toList := by
  have hnone : ¬ ∃ items, IsCpuList "abc".toList items := by
    rintro ⟨items, hitems⟩
    have htoks := isToken_strtok hitems
    rw [show strtok ',' "abc".toList = ["abc".toList] by decide] at htoks
    obtain ⟨item, _, htok, -, rfl⟩ := List.forall₂_cons_right_iff.mp htoks
    have hscan := sscanf_item (hitems.wellFormed item List.mem_cons_self).numerals htok
    rw [show sscanf ['-', ':'] "abc".toList = some [] by decide] at hscan
    cases item <;> cases hscan
  refine ⟨hnone, rfl, ?_⟩
  rintro ⟨n, ret, set, hres, hzero, -⟩
  exact hnone (hzero.mp (parseTokens_ret hres))

end CpuBitset

end Nosv
