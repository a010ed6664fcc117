import Nosv.CpuBitset
import Mathlib.Data.Finset.Max
import Mathlib.Data.Nat.Bitwise
import Mathlib.Data.Nat.Digits.Defs

/-!
# Binding masks

A binding is written as a hexadecimal mask of CPUs. `cpu_get_all_mask` writes
the mask of a set, four CPUs a digit, and `cpus_get_binding_mask` reads it,
from the last digit on.

A `cpu_set_t` is a finite set of CPUs below `CPU_SETSIZE`. `none` is an
abort, a failed assertion or the overflow of an `int`.
-/

namespace Nosv

namespace BindingMask

/-- `CPU_SETSIZE` -/
def cpuSetsize : Nat := 1024

/-- `CPU_SET` -/
def cpuSet (cpu : Nat) (set : Finset Nat) : Finset Nat :=
  if cpu < cpuSetsize then insert cpu set else set

/-! ## Writing a mask -/

/-- The search for `maxcpu` -/
def maxcpuFrom (set : Finset Nat) : Nat → Option Nat
  | 0 => if 0 ∈ set then some 0 else none
  | cpu + 1 => if cpu + 1 ∈ set then some (cpu + 1) else maxcpuFrom set cpu

/-- `round_up_div` -/
def roundUpDiv (x y : Nat) : Nat := (x + y - 1) / y

/-- The bits of the CPUs from `i * 4` on, below `(i + 1) * 4` and up to
`maxcpu` -/
def digitAt (set : Finset Nat) (maxcpu i : Nat) : Nat :=
  (List.range' (i * 4) (min ((i + 1) * 4) (maxcpu + 1) - i * 4)).foldl
    (fun tmp cpu => tmp ||| (if cpu ∈ set then 1 else 0) <<< (cpu % 4)) 0

def digitChar (tmp : Nat) : Char :=
  if tmp < 10 then Char.ofNat ('0'.toNat + tmp) else Char.ofNat ('a'.toNat - 10 + tmp)

/-- `cpu_get_all_mask`, from where `set` has the usable CPUs on -/
def cpuGetAllMask (set : Finset Nat) : Option (List Char) :=
  (maxcpuFrom set (cpuSetsize - 1)).map fun maxcpu =>
    let numDigits := roundUpDiv maxcpu 4
    '0' :: 'x' :: ((List.range numDigits).map fun i => digitChar (digitAt set maxcpu i)).reverse

/-! ## Reading a mask -/

/-- The `number` of a digit -/
def digitNumber (c : Char) : Option Nat :=
  if '0' ≤ c ∧ c ≤ '9' then some (c.toNat - '0'.toNat)
  else if 'a' ≤ c ∧ c ≤ 'f' then some (c.toNat - 'a'.toNat + 10)
  else if 'A' ≤ c ∧ c ≤ 'F' then some (c.toNat - 'A'.toNat + 10)
  else none

def setBit (number b k : Nat) (set : Finset Nat) : Finset Nat :=
  if number &&& 2 ^ k ≠ 0 then cpuSet (b + k) set else set

def setDigit (number b : Nat) (set : Finset Nat) : Finset Nat :=
  setBit number b 3 (setBit number b 2 (setBit number b 1 (setBit number b 0 set)))

/-- The loop over the digits, from the last one on -/
def readDigits : List Char → Nat → Finset Nat → Option (Finset Nat)
  | [], _, set => some set
  | c :: cs, b, set =>
      (digitNumber c).bind fun number =>
        if b + 4 ≤ 2147483647 then readDigits cs (b + 4) (setDigit number b set) else none

/-- The branch for a mask -/
def readMask : List Char → Option (Finset Nat)
  | '0' :: x :: digits => if x = 'x' ∨ x = 'X' then readDigits digits.reverse 0 ∅ else none
  | _ => none

/-- The `cpu_set_t` of a binding, where `affinity` is the mask that
`sched_getaffinity` gives -/
def glibcCpuset (affinity : Finset Nat) (binding : List Char) : Option (Finset Nat) :=
  if binding = "inherit".toList then
    if 0 < affinity.card then some affinity else none
  else readMask binding

/-- The loop that copies the set -/
def copySet (set : Finset Nat) : CpuBitset :=
  (List.range topoNrCpus).foldl (fun cpuset i => if i ∈ set then cpuset.set i else cpuset) CpuBitset.init

/-- `cpus_get_binding_mask` -/
def cpusGetBindingMask (affinity : Finset Nat) (binding : List Char) : Option CpuBitset :=
  (glibcCpuset affinity binding).bind fun set =>
    if set.card ≤ topoNrCpus ∧ set.card = (copySet set).count then some (copySet set) else none

/-! ## Hexadecimal numbers -/

def hexChars : List Char := "0123456789abcdefABCDEF".toList

/-- The value of a hexadecimal digit -/
def hexNumber (c : Char) : Nat := "0123456789abcdef".toList.idxOf c.toLower

/-- The number that a string of hexadecimal digits denotes -/
def hexValue (digits : List Char) : Nat := Nat.ofDigits 16 (digits.reverse.map hexNumber)

variable {set set' S affinity : Finset Nat} {number b k n maxcpu i cpu tmp : Nat} {c : Char}
  {cs digits : List Char}

theorem hexNumber_lt (hc : c ∈ hexChars) : hexNumber c < 16 := by
  have h : hexChars.all (fun c => hexNumber c < 16) = true := by decide
  exact of_decide_eq_true (List.all_eq_true.mp h c hc)

theorem digitNumber_eq (hc : c ∈ hexChars) : digitNumber c = some (hexNumber c) := by
  have h : hexChars.all (fun c => digitNumber c = some (hexNumber c)) = true := by decide
  exact of_decide_eq_true (List.all_eq_true.mp h c hc)

theorem digitChar_mem (h : tmp < 16) : digitChar tmp ∈ hexChars ∧ hexNumber (digitChar tmp) = tmp := by
  have hall : ∀ tmp < 16, digitChar tmp ∈ hexChars ∧ hexNumber (digitChar tmp) = tmp := by decide
  exact hall tmp h

theorem testBit_of_le (h : number < 16) (hk : 4 ≤ k) : number.testBit k = false :=
  Nat.testBit_lt_two_pow (Nat.lt_of_lt_of_le h (Nat.pow_le_pow_right (n := 2) (by decide) hk))

/-- The bits of a number, digit by digit -/
theorem testBit_ofDigits (l : List Nat) (hl : ∀ d ∈ l, d < 16) (cpu : Nat) :
    (Nat.ofDigits 16 l).testBit cpu = (l.getD (cpu / 4) 0).testBit (cpu % 4) := by
  induction l generalizing cpu with
  | nil => simp
  | cons d l ih =>
      rw [Nat.ofDigits_cons, Nat.add_comm,
        show (16 : Nat) * Nat.ofDigits 16 l = 2 ^ 4 * Nat.ofDigits 16 l from rfl,
        Nat.testBit_two_pow_mul_add _ (hl d List.mem_cons_self)]
      split
      case isTrue hlt => rw [Nat.div_eq_of_lt hlt, Nat.mod_eq_of_lt hlt, List.getD_cons_zero]
      case isFalse hge =>
        have hdiv : cpu / 4 = (cpu - 4) / 4 + 1 := by omega
        have hmod : (cpu - 4) % 4 = cpu % 4 := by omega
        rw [ih (fun d hd => hl d (List.mem_cons_of_mem _ hd)), hmod, hdiv, List.getD_cons_succ]

/-! ## What is read -/

theorem mem_cpuSet : cpu ∈ cpuSet n set ↔ cpu ∈ set ∨ cpu = n ∧ cpu < cpuSetsize := by
  unfold cpuSet
  split
  case isTrue h =>
    rw [Finset.mem_insert]
    constructor
    · rintro (rfl | hin)
      · exact Or.inr ⟨rfl, h⟩
      · exact Or.inl hin
    · rintro (hin | ⟨rfl, -⟩)
      · exact Or.inr hin
      · exact Or.inl rfl
  case isFalse h => exact ⟨Or.inl, fun hin => hin.resolve_right fun ⟨heq, hlt⟩ => h (heq ▸ hlt)⟩

theorem mem_setBit :
    cpu ∈ setBit number b k set
      ↔ cpu ∈ set ∨ cpu = b + k ∧ number.testBit k = true ∧ cpu < cpuSetsize := by
  unfold setBit
  rw [Nat.and_two_pow]
  cases number.testBit k with
  | false => simp
  | true => simp [mem_cpuSet]

theorem mem_setDigit (hnumber : number < 16) :
    cpu ∈ setDigit number b set
      ↔ cpu ∈ set ∨ b ≤ cpu ∧ number.testBit (cpu - b) = true ∧ cpu < cpuSetsize := by
  simp only [setDigit, mem_setBit]
  constructor
  · have hbits : ∀ k, cpu = b + k ∧ number.testBit k = true ∧ cpu < cpuSetsize →
        b ≤ cpu ∧ number.testBit (cpu - b) = true ∧ cpu < cpuSetsize := by
      rintro k ⟨rfl, hbit, hlt⟩
      exact ⟨Nat.le_add_right b k, by rwa [Nat.add_sub_cancel_left], hlt⟩
    rintro ((((hin | h) | h) | h) | h)
    · exact Or.inl hin
    · exact Or.inr (hbits 0 h)
    · exact Or.inr (hbits 1 h)
    · exact Or.inr (hbits 2 h)
    · exact Or.inr (hbits 3 h)
  · rintro (hin | ⟨hle, hbit, hlt⟩)
    · exact Or.inl (Or.inl (Or.inl (Or.inl hin)))
    · obtain ⟨k, rfl⟩ := Nat.exists_eq_add_of_le hle
      rw [Nat.add_sub_cancel_left] at hbit
      have hk : k < 4 := by
        by_contra hge
        rw [testBit_of_le hnumber (Nat.le_of_not_lt hge)] at hbit
        cases hbit
      match k, hk with
      | 0, _ => exact Or.inl (Or.inl (Or.inl (Or.inr ⟨rfl, hbit, hlt⟩)))
      | 1, _ => exact Or.inl (Or.inl (Or.inr ⟨rfl, hbit, hlt⟩))
      | 2, _ => exact Or.inl (Or.inr ⟨rfl, hbit, hlt⟩)
      | 3, _ => exact Or.inr ⟨rfl, hbit, hlt⟩

/-- The loop adds the one bits of what it reads. -/
theorem readDigits_spec :
    ∀ {cs : List Char} {b : Nat} {set : Finset Nat}, (∀ c ∈ cs, c ∈ hexChars) →
      b + 4 * cs.length ≤ 2147483647 →
      ∃ set', readDigits cs b set = some set'
        ∧ ∀ cpu, cpu ∈ set' ↔ cpu ∈ set ∨ b ≤ cpu
          ∧ (Nat.ofDigits 16 (cs.map hexNumber)).testBit (cpu - b) = true ∧ cpu < cpuSetsize
  | [], b, set, _, _ => ⟨set, rfl, fun cpu => by simp⟩
  | c :: cs, b, set, hhex, hlen => by
      rw [List.length_cons] at hlen
      have hc := hhex c List.mem_cons_self
      obtain ⟨set', hset', hmem⟩ := @readDigits_spec cs (b + 4)
        (setDigit (hexNumber c) b set) (fun c hc => hhex c (List.mem_cons_of_mem _ hc)) (by omega)
      refine ⟨set', ?_, fun cpu => ?_⟩
      · rw [readDigits, digitNumber_eq hc, Option.bind_some, if_pos (by omega), hset']
      · have hlow : hexNumber c < 2 ^ 4 := hexNumber_lt hc
        rw [hmem, mem_setDigit (hexNumber_lt hc), List.map_cons, Nat.ofDigits_cons, Nat.add_comm (hexNumber c),
          show (16 : Nat) * Nat.ofDigits 16 (cs.map hexNumber) = 2 ^ 4 * Nat.ofDigits 16 (cs.map hexNumber)
            from rfl, Nat.testBit_two_pow_mul_add _ hlow, or_assoc]
        refine or_congr_right ?_
        by_cases hlt : cpu - b < 4
        · rw [if_pos hlt]
          constructor
          · rintro (h | ⟨hle, -⟩)
            · exact h
            · omega
          · exact Or.inl
        · have hhigh : (hexNumber c).testBit (cpu - b) = false :=
            testBit_of_le (hexNumber_lt hc) (Nat.le_of_not_lt hlt)
          have hsub : cpu - (b + 4) = cpu - b - 4 := by omega
          rw [if_neg hlt, hhigh, hsub]
          constructor
          · rintro (⟨-, h, -⟩ | ⟨hle, h⟩)
            · cases h
            · exact ⟨by omega, h⟩
          · rintro ⟨hle, h⟩
            exact Or.inr ⟨by omega, h⟩

/-- A mask whose number of CPUs is no `int` is not read. -/
theorem readDigits_overflow :
    ∀ {cs : List Char} {b : Nat} {set : Finset Nat}, b ≤ 2147483647 →
      2147483647 < b + 4 * cs.length → readDigits cs b set = none
  | [], b, set, hb, hlen => absurd hlen (by simpa using hb)
  | c :: cs, b, set, hb, hlen => by
      rw [List.length_cons] at hlen
      rw [readDigits]
      cases digitNumber c with
      | none => rfl
      | some number =>
          rw [Option.bind_some]
          split
          case isTrue hle => exact readDigits_overflow hle (by omega)
          case isFalse => rfl

theorem copySet_cpus (h : ∀ cpu ∈ set, cpu < topoNrCpus) : (copySet set).cpus = set := by
  have hfold : ∀ (l : List Nat) (cpuset : CpuBitset), (∀ i ∈ l, i < topoNrCpus) →
      ∀ cpu, cpu ∈ (l.foldl (fun cpuset i => if i ∈ set then cpuset.set i else cpuset) cpuset).cpus
        ↔ cpu ∈ cpuset.cpus ∨ cpu ∈ l ∧ cpu ∈ set := by
    intro l
    induction l with
    | nil => simp
    | cons i l ih =>
        intro cpuset hl cpu
        rw [List.foldl_cons, ih _ fun j hj => hl j (List.mem_cons_of_mem _ hj), List.mem_cons]
        split
        case isTrue hin =>
          rw [CpuBitset.cpus_set (hl i List.mem_cons_self), Finset.mem_insert]
          constructor
          · rintro ((rfl | hc) | hc)
            · exact Or.inr ⟨Or.inl rfl, hin⟩
            · exact Or.inl hc
            · exact Or.inr ⟨Or.inr hc.1, hc.2⟩
          · rintro (hc | ⟨rfl | hc, hset⟩)
            · exact Or.inl (Or.inr hc)
            · exact Or.inl (Or.inl rfl)
            · exact Or.inr ⟨hc, hset⟩
        case isFalse hin =>
          refine or_congr_right (and_congr_left fun hset => ?_)
          exact (or_iff_right fun heq => hin (by rwa [← heq])).symm
  ext cpu
  rw [copySet, hfold _ _ (fun i hi => List.mem_range.mp hi), CpuBitset.cpus_init, List.mem_range]
  constructor
  · rintro (hc | ⟨-, hc⟩)
    · exact absurd hc (Finset.notMem_empty cpu)
    · exact hc
  · exact fun hc => Or.inr ⟨h cpu hc, hc⟩

theorem card_le_of_lt (h : ∀ cpu ∈ set, cpu < topoNrCpus) : set.card ≤ topoNrCpus := by
  have hsub : set ⊆ Finset.range topoNrCpus := fun cpu hcpu => Finset.mem_range.mpr (h cpu hcpu)
  exact (Finset.card_le_card hsub).trans_eq (Finset.card_range _)

/-- A mask of CPUs that all are below `NR_CPUS` -/
theorem cpusGetBindingMask_of_lt (hset : glibcCpuset affinity digits = some set)
    (h : ∀ cpu ∈ set, cpu < topoNrCpus) : cpusGetBindingMask affinity digits = some (copySet set) := by
  have hcount : set.card = (copySet set).count := by rw [CpuBitset.count_eq_card, copySet_cpus h]
  rw [cpusGetBindingMask, hset, Option.bind_some, if_pos ⟨card_le_of_lt h, hcount⟩]

theorem glibcCpuset_mask : glibcCpuset affinity ('0' :: 'x' :: digits) = readDigits digits.reverse 0 ∅ := by
  have hne : '0' :: 'x' :: digits ≠ "inherit".toList := fun h => by cases h
  rw [glibcCpuset, if_neg hne, readMask, if_pos (Or.inl rfl)]

/-- The mask of a number below `2 ^ NR_CPUS` gives its one bits. -/
theorem cpusGetBindingMask_mask (hhex : ∀ c ∈ digits, c ∈ hexChars) (hlen : 4 * digits.length ≤ 2147483647)
    (hvalue : hexValue digits < 2 ^ topoNrCpus) :
    ∃ set, cpusGetBindingMask affinity ('0' :: 'x' :: digits) = some set
      ∧ ∀ cpu, cpu ∈ set.cpus ↔ (hexValue digits).testBit cpu = true := by
  obtain ⟨set, hset, hmem⟩ := @readDigits_spec digits.reverse 0 ∅
    (fun c hc => hhex c (List.mem_reverse.mp hc)) (by simpa using hlen)
  have hbits : ∀ cpu, cpu ∈ set ↔ (hexValue digits).testBit cpu = true := by
    intro cpu
    rw [hmem, Nat.sub_zero]
    constructor
    · rintro (hin | ⟨-, hbit, -⟩)
      · exact absurd hin (Finset.notMem_empty cpu)
      · exact hbit
    · intro hbit
      have hlt : cpu < topoNrCpus := by
        by_contra hge
        rw [Nat.testBit_lt_two_pow (hvalue.trans_le
          (Nat.pow_le_pow_right (by decide) (Nat.le_of_not_lt hge)))] at hbit
        cases hbit
      exact Or.inr ⟨Nat.zero_le cpu, hbit, hlt.trans (by decide)⟩
  have hlt : ∀ cpu ∈ set, cpu < topoNrCpus := by
    intro cpu hcpu
    by_contra hge
    have hbit := (hbits cpu).mp hcpu
    rw [Nat.testBit_lt_two_pow (hvalue.trans_le
      (Nat.pow_le_pow_right (by decide) (Nat.le_of_not_lt hge)))] at hbit
    cases hbit
  refine ⟨copySet set, cpusGetBindingMask_of_lt (glibcCpuset_mask.trans hset) hlt, fun cpu => ?_⟩
  rw [copySet_cpus hlt, hbits]

/-! ## What is written -/

theorem maxcpuFrom_eq {m : Nat} (h : IsGreatest (S : Set Nat) m) :
    ∀ {n : Nat}, m ≤ n → maxcpuFrom S n = some m
  | 0, hn => by
      obtain rfl := Nat.le_zero.mp hn
      exact if_pos (Finset.mem_coe.mp h.1)
  | n + 1, hn => by
      rw [maxcpuFrom]
      by_cases hin : n + 1 ∈ S
      · rw [if_pos hin, Nat.le_antisymm hn (h.2 hin)]
      · have hne : m ≠ n + 1 := fun heq => hin (heq ▸ h.1)
        rw [if_neg hin, maxcpuFrom_eq h (by omega)]

theorem testBit_digitAt :
    (digitAt set maxcpu i).testBit k = true ↔ k < 4 ∧ i * 4 + k ≤ maxcpu ∧ i * 4 + k ∈ set := by
  have hfold : ∀ (l : List Nat) (tmp : Nat),
      (l.foldl (fun tmp cpu => tmp ||| (if cpu ∈ set then 1 else 0) <<< (cpu % 4)) tmp).testBit k = true
        ↔ tmp.testBit k = true ∨ ∃ cpu ∈ l, cpu ∈ set ∧ cpu % 4 = k := by
    intro l
    induction l with
    | nil => simp
    | cons cpu l ih =>
        intro tmp
        rw [List.foldl_cons, ih, Nat.testBit_or, Bool.or_eq_true, or_assoc, List.exists_mem_cons_iff]
        refine or_congr_right (or_congr_left ?_)
        split
        case isTrue hin =>
          rw [Nat.one_shiftLeft, Nat.testBit_two_pow, decide_eq_true_eq]
          exact (and_iff_right hin).symm
        case isFalse hnot => simp [hnot]
  rw [digitAt, hfold, Nat.zero_testBit]
  constructor
  · rintro (h | ⟨cpu, hcpu, hin, rfl⟩)
    · cases h
    · rw [List.mem_range'_1] at hcpu
      have heq : i * 4 + cpu % 4 = cpu := by omega
      rw [heq]
      exact ⟨by omega, by omega, hin⟩
  · rintro ⟨hk, hle, hin⟩
    exact Or.inr ⟨_, List.mem_range'_1.mpr ⟨by omega, by omega⟩, hin, by omega⟩

theorem digitAt_lt : digitAt set maxcpu i < 16 := by
  refine Nat.lt_pow_two_of_testBit (n := 4) _ fun k hk => ?_
  by_contra hbit
  have := testBit_digitAt.mp (eq_true_of_ne_false hbit)
  omega

/-- The mask of a set leaves out the CPUs without a digit. -/
theorem testBit_mask (h : IsGreatest (S : Set Nat) maxcpu) (n : Nat) :
    (hexValue ((List.range n).map fun i => digitChar (digitAt S maxcpu i)).reverse).testBit cpu = true
      ↔ cpu ∈ S ∧ cpu / 4 < n := by
  have hdigits : (((List.range n).map fun i => digitChar (digitAt S maxcpu i)).map hexNumber)
      = (List.range n).map (digitAt S maxcpu) := by
    rw [List.map_map]
    refine List.map_congr_left fun i _ => ?_
    rw [Function.comp_apply, (digitChar_mem digitAt_lt).2]
  have hlow : ∀ d ∈ (List.range n).map (digitAt S maxcpu), d < 16 := by
    intro d hd
    obtain ⟨i, -, rfl⟩ := List.mem_map.mp hd
    exact digitAt_lt
  rw [hexValue, List.reverse_reverse, hdigits, testBit_ofDigits _ hlow]
  by_cases hlt : cpu / 4 < n
  · have hget : ((List.range n).map (digitAt S maxcpu)).getD (cpu / 4) 0 = digitAt S maxcpu (cpu / 4) := by
      rw [List.getD_eq_getElem?_getD, List.getElem?_map, List.getElem?_range hlt]
      rfl
    have hsum : cpu / 4 * 4 + cpu % 4 = cpu := Nat.div_add_mod' cpu 4
    rw [hget, testBit_digitAt, hsum]
    constructor
    · exact fun hbit => ⟨hbit.2.2, hlt⟩
    · exact fun hin => ⟨Nat.mod_lt _ (by decide), h.2 (Finset.mem_coe.mpr hin.1), hin.1⟩
  · rw [List.getD_eq_default _ _ (by simpa using hlt), Nat.zero_testBit]
    exact iff_of_false Bool.false_ne_true fun hin => hlt hin.2

/-- Reading the mask of a set gives the set. -/
def RoundTrips (affinity S : Finset Nat) : Prop :=
  ∃ text set, cpuGetAllMask S = some text ∧ cpusGetBindingMask affinity text = some set ∧ set.cpus = S

/-- A string of digits is read as its one bits. -/
def ReadsBits (affinity : Finset Nat) (digits : List Char) : Prop :=
  ∃ set, cpusGetBindingMask affinity ('0' :: 'x' :: digits) = some set
    ∧ ∀ cpu, cpu ∈ set.cpus ↔ (hexValue digits).testBit cpu = true

/-- The mask of a set is read as those CPUs that have a digit. -/
theorem cpusGetBindingMask_allMask (hmax : IsGreatest (S : Set Nat) maxcpu) (hlt : maxcpu < topoNrCpus) :
    ∃ text set, cpuGetAllMask S = some text ∧ cpusGetBindingMask affinity text = some set
      ∧ ∀ cpu, cpu ∈ set.cpus ↔ cpu ∈ S ∧ cpu / 4 < roundUpDiv maxcpu 4 := by
  have hlt : maxcpu < 256 := hlt
  have hdigits : roundUpDiv maxcpu 4 ≤ 64 := by
    rw [roundUpDiv]
    omega
  obtain ⟨digits, hdef⟩ : ∃ digits, digits
      = ((List.range (roundUpDiv maxcpu 4)).map fun i => digitChar (digitAt S maxcpu i)).reverse := ⟨_, rfl⟩
  have hbits : ∀ cpu, (hexValue digits).testBit cpu = true ↔ cpu ∈ S ∧ cpu / 4 < roundUpDiv maxcpu 4 :=
    fun cpu => hdef ▸ testBit_mask hmax (roundUpDiv maxcpu 4)
  obtain ⟨set, hset, hmem⟩ : ∃ set, cpusGetBindingMask affinity ('0' :: 'x' :: digits) = some set ∧ _ :=
    cpusGetBindingMask_mask (fun c hc => by
      rw [hdef] at hc
      obtain ⟨i, -, rfl⟩ := List.mem_map.mp (List.mem_reverse.mp hc)
      exact (digitChar_mem digitAt_lt).1)
    (by rw [hdef, List.length_reverse, List.length_map, List.length_range]; omega)
    (Nat.lt_pow_two_of_testBit _ fun cpu hcpu => by
      by_contra hbit
      have hin := ((hbits cpu).mp (eq_true_of_ne_false hbit)).1
      exact absurd (hcpu.trans (hmax.2 (Finset.mem_coe.mpr hin))) (Nat.not_le_of_lt hlt))
  refine ⟨_, set, ?_, hset, fun cpu => (hmem cpu).trans (hbits cpu)⟩
  rw [cpuGetAllMask, maxcpuFrom_eq hmax (Nat.le_of_lt (hlt.trans (by decide))), hdef]
  rfl

theorem roundTrips_iff (hne : S.Nonempty) (hlt : ∀ cpu ∈ S, cpu < topoNrCpus) :
    RoundTrips affinity S ↔ S.max' hne % 4 ≠ 0 := by
  have hmax : IsGreatest (S : Set Nat) (S.max' hne) := S.isGreatest_max' hne
  obtain ⟨text, set, htext, hset, hmem⟩ :
      ∃ text set, cpuGetAllMask S = some text ∧ cpusGetBindingMask affinity text = some set ∧ _ :=
    cpusGetBindingMask_allMask hmax (hlt _ hmax.1)
  have hdigit : S.max' hne / 4 < roundUpDiv (S.max' hne) 4 ↔ S.max' hne % 4 ≠ 0 := by
    rw [roundUpDiv]
    omega
  rw [← hdigit]
  constructor
  · rintro ⟨text', set', htext', hset', hcpus⟩
    obtain rfl := Option.some.inj (htext.symm.trans htext')
    obtain rfl := Option.some.inj (hset.symm.trans hset')
    have hin : S.max' hne ∈ set.cpus := by
      rw [hcpus]
      exact hmax.1
    exact ((hmem _).mp hin).2
  · intro hlast
    refine ⟨text, set, htext, hset, Finset.ext fun cpu => ?_⟩
    rw [hmem]
    refine and_iff_left_of_imp fun hcpu => Nat.lt_of_le_of_lt ?_ hlast
    exact Nat.div_le_div_right (hmax.2 (Finset.mem_coe.mpr hcpu))

theorem readsBits_iff (hhex : ∀ c ∈ digits, c ∈ hexChars) (hvalue : hexValue digits < 2 ^ topoNrCpus) :
    ReadsBits affinity digits ↔ 4 * digits.length ≤ 2147483647 := by
  constructor
  · rintro ⟨set, hset, -⟩
    by_contra hlen
    rw [cpusGetBindingMask, glibcCpuset_mask,
      readDigits_overflow (Nat.zero_le _) (by rw [List.length_reverse]; omega)] at hset
    cases hset
  · exact fun hlen => cpusGetBindingMask_mask hhex hlen hvalue

/-- The mask of a set is read as the set, unless its greatest CPU is the
first one of a digit; a mask is read as its one bits, unless it has so many
digits that the numbers of the CPUs are beyond an `int`. -/
theorem binding_mask_round_trip (affinity : Finset Nat) :
    (∀ (S : Finset Nat) (hne : S.Nonempty), (∀ cpu ∈ S, cpu < topoNrCpus) →
      (RoundTrips affinity S ↔ S.max' hne % 4 ≠ 0))
    ∧ ∀ digits, (∀ c ∈ digits, c ∈ hexChars) → hexValue digits < 2 ^ topoNrCpus →
      (ReadsBits affinity digits ↔ 4 * digits.length ≤ 2147483647) :=
  ⟨fun _ hne hlt => roundTrips_iff hne hlt, fun _ hhex hvalue => readsBits_iff hhex hvalue⟩

/-- Of CPUs 0 to 4, the mask `0xf` drops the last one. -/
theorem mask_drops_last :
    cpuGetAllMask {0, 1, 2, 3, 4} = some "0xf".toList
      ∧ ¬ RoundTrips ∅ {0, 1, 2, 3, 4} := by
  constructor
  · have hmax : IsGreatest (({0, 1, 2, 3, 4} : Finset Nat) : Set Nat) 4 :=
      ⟨by decide, fun cpu hcpu => by
        have hall : ∀ cpu ∈ ({0, 1, 2, 3, 4} : Finset Nat), cpu ≤ 4 := by decide
        exact hall cpu (Finset.mem_coe.mp hcpu)⟩
    rw [cpuGetAllMask, maxcpuFrom_eq hmax (by decide)]
    decide
  · rw [roundTrips_iff (Finset.insert_nonempty _ _) (by decide)]
    decide

/-- CPUs 0 to 5, and the mask `0x003F` -/
theorem binding_mask_round_trip_example :
    RoundTrips ∅ {0, 1, 2, 3, 4, 5} ∧ ReadsBits ∅ "003F".toList := by
  have hhex : "003F".toList.all (fun c => c ∈ hexChars) = true := by decide
  exact ⟨((binding_mask_round_trip ∅).1 {0, 1, 2, 3, 4, 5} (Finset.insert_nonempty _ _) (by decide)).mpr (by decide),
    ((binding_mask_round_trip ∅).2 "003F".toList (fun c hc => of_decide_eq_true (List.all_eq_true.mp hhex c hc))
      (by decide)).mpr (by decide)⟩

end BindingMask

end Nosv
