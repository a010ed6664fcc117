import Nosv.Lib.CString
import Mathlib.Logic.Function.Iterate
import Mathlib.Algebra.Group.Nat.Defs

/-!
# Sizes in the configuration

`parse_str_size` reads a number with `strtoull` and multiplies it by 1024
for each case that its `switch` falls through. It is described by the
sizes, digits with at most one suffix, and by the kinds of text that it
takes for a size although they are none.
-/

namespace Nosv

open CString

namespace Config

/-- How often a case of the `switch` shifts the result -/
def shifts : Char → Option Nat
  | 'E' | 'e' => some 6
  | 'P' | 'p' => some 5
  | 'T' | 't' => some 4
  | 'G' | 'g' => some 3
  | 'M' | 'm' => some 2
  | 'K' | 'k' => some 1
  | _ => none

/-- `result <<= 10` -/
def shift (result : Nat) : Nat := (result <<< 10) % 18446744073709551616

/-- `parse_str_size`: the return value, and what is at `ptr` after it -/
def parseStrSize (ptr : Nat) (str : List Char) : Int × Nat :=
  let result := strtoull str
  if result.erange then (1, ptr)
  else
    match result.endptr with
    | [] => (0, result.value.toNat)
    | c :: _ =>
        match shifts c with
        | some n => (0, shift^[n] result.value.toNat)
        | none => (1, ptr)

/-! ## Sizes -/

def suffixes : List (Char × Nat) :=
  [('k', 1), ('K', 1), ('m', 2), ('M', 2), ('g', 3), ('G', 3), ('t', 4), ('T', 4), ('p', 5), ('P', 5),
    ('e', 6), ('E', 6)]

/-- The text denotes the size. -/
inductive IsSize : List Char → Nat → Prop
  | plain {digits : List Char} : IsNumeral digits → IsSize digits (digitsValue digits)
  | suffixed {digits : List Char} {c : Char} {j : Nat} :
      IsNumeral digits → (c, j) ∈ suffixes → IsSize (digits ++ [c]) (digitsValue digits * 1024 ^ j)

/-- The texts that are taken for a size, and are none or too large -/
inductive Slips : List Char → Prop
  | empty : Slips []
  /-- A suffix without digits -/
  | suffixOnly {c : Char} {j : Nat} (rest : List Char) : (c, j) ∈ suffixes → Slips (c :: rest)
  /-- White space or a sign before the digits -/
  | front {space sign digits rest : List Char} :
      (∀ c ∈ space, isSpace c = true) → sign = [] ∨ sign = ['+'] ∨ sign = ['-'] → space ++ sign ≠ [] →
      IsNumeral digits → digitsValue digits < 2 ^ 64 →
      (rest = [] ∨ ∃ c j t, rest = c :: t ∧ (c, j) ∈ suffixes) →
      Slips (space ++ (sign ++ (digits ++ rest)))
  /-- More text after the suffix -/
  | trailing {digits rest : List Char} {c : Char} {j : Nat} :
      IsNumeral digits → digitsValue digits < 2 ^ 64 → (c, j) ∈ suffixes → rest ≠ [] →
      Slips (digits ++ c :: rest)
  /-- A number of 64 bits that the suffix makes too large -/
  | overflow {digits : List Char} {c : Char} {j : Nat} :
      IsNumeral digits → digitsValue digits < 2 ^ 64 → (c, j) ∈ suffixes →
      2 ^ 64 ≤ digitsValue digits * 1024 ^ j → Slips (digits ++ [c])

/-- The function stores a size below `2 ^ 64`, and rejects any other text. -/
def ParsesSize (s : List Char) : Prop :=
  ∀ ptr, ((parseStrSize ptr s).1 = 0 ↔ ∃ v, IsSize s v ∧ v < 2 ^ 64)
    ∧ (∀ v, IsSize s v → v < 2 ^ 64 → (parseStrSize ptr s).2 = v)
    ∧ ((parseStrSize ptr s).1 ≠ 0 → (parseStrSize ptr s).2 = ptr)

variable {s digits rest : List Char} {c : Char} {j v ptr : Nat} {n : Number}

theorem shifts_eq_some_iff : shifts c = some j ↔ (c, j) ∈ suffixes := by
  constructor
  · intro h
    unfold shifts at h
    split at h
    all_goals
      cases h
      try decide
  · intro h
    have hall : ∀ p ∈ suffixes, shifts p.1 = some p.2 := by decide
    exact hall (c, j) h

theorem isDigit_suffix (h : (c, j) ∈ suffixes) : c.isDigit = false := by
  have hall : ∀ p ∈ suffixes, p.1.isDigit = false := by decide
  exact hall (c, j) h

theorem iterate_shift (v j : Nat) (hv : v < 2 ^ 64) : shift^[j] v = v * 1024 ^ j % 2 ^ 64 := by
  induction j with
  | zero => rw [Function.iterate_zero_apply, Nat.pow_zero, Nat.mul_one, Nat.mod_eq_of_lt hv]
  | succ j ih =>
      have hmod : (v * 1024 ^ j % 2 ^ 64) <<< 10 % 2 ^ 64 = v * 1024 ^ (j + 1) % 2 ^ 64 := by
        rw [Nat.shiftLeft_eq, Nat.mod_mul_mod, Nat.pow_succ 1024, Nat.mul_assoc]
      rw [Function.iterate_succ_apply', ih]
      exact hmod

/-! ## What the function does with a number -/

theorem strtoull_of_scan (h : scanNumber s = some n) (hlt : digitsValue n.digits < 2 ^ 64) :
    strtoull s = ⟨n.value % 18446744073709551616, false, n.rest⟩ := by
  rw [strtoull, h]
  exact if_neg (Nat.not_le_of_lt hlt)

theorem parseStrSize_end (h : scanNumber s = some n) (hlt : digitsValue n.digits < 2 ^ 64)
    (hrest : n.rest = []) : parseStrSize ptr s = (0, (n.value % 18446744073709551616).toNat) := by
  unfold parseStrSize
  rw [strtoull_of_scan h hlt, hrest]
  rfl

theorem parseStrSize_suffix (h : scanNumber s = some n) (hlt : digitsValue n.digits < 2 ^ 64)
    (hrest : n.rest = c :: rest) (hc : (c, j) ∈ suffixes) :
    parseStrSize ptr s = (0, shift^[j] (n.value % 18446744073709551616).toNat) := by
  unfold parseStrSize
  rw [strtoull_of_scan h hlt, hrest]
  dsimp only
  rw [shifts_eq_some_iff.mpr hc]
  rfl

/-- A failure leaves the destination as it is. -/
theorem parseStrSize_failed (h : (parseStrSize ptr s).1 ≠ 0) : (parseStrSize ptr s).2 = ptr := by
  revert h
  unfold parseStrSize
  dsimp only
  split
  · exact fun _ => rfl
  split
  · exact fun h => absurd rfl h
  split
  · exact fun h => absurd rfl h
  · exact fun _ => rfl

/-- What the function takes for a size -/
theorem parseStrSize_zero (h : (parseStrSize ptr s).1 = 0) :
    (scanNumber s = none ∧ (s = [] ∨ ∃ c j t, s = c :: t ∧ (c, j) ∈ suffixes))
    ∨ ∃ n, scanNumber s = some n ∧ digitsValue n.digits < 2 ^ 64
      ∧ (n.rest = [] ∨ ∃ c j t, n.rest = c :: t ∧ (c, j) ∈ suffixes) := by
  have hend : ∀ result : Converted, strtoull s = result → result.erange = false
      ∧ (result.endptr = [] ∨ ∃ c j t, result.endptr = c :: t ∧ (c, j) ∈ suffixes) := by
    rintro result rfl
    revert h
    unfold parseStrSize
    dsimp only
    split
    · exact fun h => absurd h Int.one_ne_zero
    case isFalse herange =>
      refine fun h => ⟨eq_false_of_ne_true herange, ?_⟩
      split at h
      case h_1 heq => exact Or.inl heq
      case h_2 c t heq =>
        split at h
        case h_1 j hj => exact Or.inr ⟨c, j, t, heq, shifts_eq_some_iff.mp hj⟩
        case h_2 => exact absurd h Int.one_ne_zero
  cases hscan : scanNumber s with
  | none =>
      have hnone : strtoull s = ⟨0, false, s⟩ := by rw [strtoull, hscan]
      exact Or.inl ⟨rfl, (hend _ hnone).2⟩
  | some n =>
      refine Or.inr ⟨n, rfl, ?_⟩
      have hres : strtoull s = if 18446744073709551616 ≤ digitsValue n.digits
          then ⟨18446744073709551615, true, n.rest⟩
          else ⟨n.value % 18446744073709551616, false, n.rest⟩ := by rw [strtoull, hscan]
      by_cases hlt : digitsValue n.digits < 2 ^ 64
      · exact ⟨hlt, (hend _ (strtoull_of_scan hscan hlt)).2⟩
      · have hge : 18446744073709551616 ≤ digitsValue n.digits := Nat.le_of_not_lt hlt
        rw [if_pos hge] at hres
        exact Bool.noConfusion (hend _ hres).1

/-! ## Sizes are stored -/

theorem value_mod {digits rest : List Char} (hlt : digitsValue digits < 2 ^ 64) :
    (Number.value ⟨false, digits, rest⟩ % 18446744073709551616).toNat = digitsValue digits := by
  have hvalue : Number.value ⟨false, digits, rest⟩ = (digitsValue digits : Int) := rfl
  rw [hvalue]
  omega

theorem scan_suffixed (h : IsNumeral digits) (hc : (c, j) ∈ suffixes) (rest : List Char) :
    scanNumber (digits ++ c :: rest) = some ⟨false, digits, c :: rest⟩ :=
  scanNumber_numeral h (stops_cons.mpr (isDigit_suffix hc))

theorem scan_plain (h : IsNumeral digits) : scanNumber digits = some ⟨false, digits, []⟩ := by
  have := scanNumber_numeral h stops_nil
  rwa [List.append_nil] at this

theorem parseStrSize_isSize (h : IsSize s v) (hv : v < 2 ^ 64) : parseStrSize ptr s = (0, v) := by
  cases h with
  | plain hdigits => rw [parseStrSize_end (scan_plain hdigits) hv rfl, value_mod hv]
  | @suffixed digits c j hdigits hc =>
      have hlt : digitsValue digits < 2 ^ 64 :=
        Nat.lt_of_le_of_lt (Nat.le_mul_of_pos_right _ (Nat.pow_pos (by decide))) hv
      rw [parseStrSize_suffix (scan_suffixed hdigits hc []) hlt rfl hc, value_mod hlt,
        iterate_shift _ _ hlt, Nat.mod_eq_of_lt hv]

/-- The digits of a size are at its front, with at most a suffix behind. -/
theorem IsSize.scan (h : IsSize s v) (hn : scanNumber s = some n) :
    s = n.digits ++ n.rest ∧ n.rest.length ≤ 1
      ∧ (∀ c, n.rest = [c] → ∃ j, (c, j) ∈ suffixes ∧ v = digitsValue n.digits * 1024 ^ j) := by
  cases h with
  | plain hdigits =>
      obtain rfl := Option.some.inj ((scan_plain hdigits).symm.trans hn)
      exact ⟨(List.append_nil _).symm, Nat.zero_le 1, fun c hc => by cases hc⟩
  | @suffixed digits c j hdigits hc =>
      obtain rfl := Option.some.inj ((scan_suffixed hdigits hc []).symm.trans hn)
      refine ⟨rfl, Nat.le_refl 1, fun d hd => ?_⟩
      obtain rfl := List.head_eq_of_cons_eq hd
      exact ⟨j, hc, rfl⟩

theorem IsSize.scan_ne_none (h : IsSize s v) : scanNumber s ≠ none := by
  cases h with
  | plain hdigits =>
      rw [scan_plain hdigits]
      exact fun h => nomatch h
  | suffixed hdigits hc =>
      rw [scan_suffixed hdigits hc []]
      exact fun h => nomatch h

/-! ## What slips -/

theorem suffix_unique {i : Nat} (hi : (c, i) ∈ suffixes) (hj : (c, j) ∈ suffixes) : i = j :=
  Option.some.inj ((shifts_eq_some_iff.mpr hi).symm.trans (shifts_eq_some_iff.mpr hj))

theorem scanNumber_suffixOnly (hc : (c, j) ∈ suffixes) : scanNumber (c :: rest) = none := by
  rw [scanNumber_eq_none_iff]
  have hall : ∀ p ∈ suffixes, isSpace p.1 = false ∧ p.1 ≠ '-' ∧ p.1 ≠ '+' := by decide
  obtain ⟨hspace, hminus, hplus⟩ := hall (c, j) hc
  rw [List.dropWhile_cons_of_neg (by rw [hspace]; exact Bool.false_ne_true)]
  have hsign : scanSign (c :: rest) = (false, c :: rest) := by
    unfold scanSign
    split
    · rename_i heq
      exact absurd (List.head_eq_of_cons_eq heq) hminus
    · rename_i heq
      exact absurd (List.head_eq_of_cons_eq heq) hplus
    · rfl
  rw [hsign]
  exact stops_cons.mpr (isDigit_suffix hc)

/-- They are stored, and denote no size below `2 ^ 64`. -/
theorem Slips.wrong (h : Slips s) :
    (parseStrSize ptr s).1 = 0 ∧ ¬ ∃ v, IsSize s v ∧ v < 2 ^ 64 := by
  cases h with
  | empty => exact ⟨rfl, fun ⟨v, hsize, _⟩ => hsize.scan_ne_none rfl⟩
  | suffixOnly rest hc =>
      refine ⟨?_, fun ⟨v, hsize, _⟩ => hsize.scan_ne_none (scanNumber_suffixOnly hc)⟩
      unfold parseStrSize strtoull
      rw [scanNumber_suffixOnly hc]
      dsimp only
      rw [shifts_eq_some_iff.mpr hc]
      rfl
  | @front space sign digits rest hspace hsign hne hdigits hlt hrest =>
      have hstops : Stops rest := by
        rcases hrest with rfl | ⟨c, j, t, rfl, hc⟩
        · exact stops_nil
        · exact stops_cons.mpr (isDigit_suffix hc)
      obtain ⟨negative, hnegative⟩ : ∃ negative, sign = [] ∧ negative = false
          ∨ sign = ['+'] ∧ negative = false ∨ sign = ['-'] ∧ negative = true := by
        rcases hsign with hs | hs | hs
        · exact ⟨false, Or.inl ⟨hs, rfl⟩⟩
        · exact ⟨false, Or.inr (Or.inl ⟨hs, rfl⟩)⟩
        · exact ⟨true, Or.inr (Or.inr ⟨hs, rfl⟩)⟩
      have hscan := (scanNumber_spaces hspace).trans (scanNumber_signed hdigits hstops hnegative)
      constructor
      · rcases hrest with hrest | ⟨c, j, t, hrest, hc⟩
        · rw [parseStrSize_end hscan hlt hrest]
        · rw [parseStrSize_suffix hscan hlt hrest hc]
      · rintro ⟨v, hsize, -⟩
        have hlen := congrArg List.length (hsize.scan hscan).1
        have hpos := List.length_pos_iff.mpr hne
        simp only [List.length_append] at hlen hpos
        omega
  | trailing hdigits hlt hc hne =>
      refine ⟨by rw [parseStrSize_suffix (scan_suffixed hdigits hc _) hlt rfl hc], ?_⟩
      rintro ⟨v, hsize, -⟩
      have hlen := (hsize.scan (scan_suffixed hdigits hc _)).2.1
      have hpos := List.length_pos_iff.mpr hne
      simp only [List.length_cons] at hlen
      omega
  | overflow hdigits hlt hc hover =>
      refine ⟨by rw [parseStrSize_suffix (scan_suffixed hdigits hc _) hlt rfl hc], ?_⟩
      rintro ⟨v, hsize, hv⟩
      obtain ⟨j, hj, rfl⟩ := (hsize.scan (scan_suffixed hdigits hc _)).2.2 _ rfl
      rw [suffix_unique hj hc] at hv
      exact absurd hv (Nat.not_lt_of_le hover)

/-- All else that is stored is a size. -/
theorem size_of_stored (hslips : ¬ Slips s) (h : (parseStrSize ptr s).1 = 0) :
    ∃ v, IsSize s v ∧ v < 2 ^ 64 := by
  rcases parseStrSize_zero h with ⟨-, rfl | ⟨c, j, t, rfl, hc⟩⟩ | ⟨n, hscan, hlt, hrest⟩
  · exact absurd Slips.empty hslips
  · exact absurd (Slips.suffixOnly t hc) hslips
  obtain ⟨space, sign, rfl, hspace, hsign, hdigits, -⟩ := scanNumber_eq_some hscan
  have hfront : space ++ sign = [] := by
    by_contra hne
    refine hslips (Slips.front hspace ?_ hne hdigits hlt hrest)
    rcases hsign with ⟨hs, -⟩ | ⟨hs, -⟩ | ⟨hs, -⟩
    · exact Or.inl hs
    · exact Or.inr (Or.inl hs)
    · exact Or.inr (Or.inr hs)
  obtain ⟨rfl, rfl⟩ := List.append_eq_nil_iff.mp hfront
  rw [List.nil_append, List.nil_append] at hslips ⊢
  rcases hrest with hrest | ⟨c, j, t, hrest, hc⟩
  · rw [hrest, List.append_nil]
    exact ⟨_, IsSize.plain hdigits, hlt⟩
  · rw [hrest] at hslips ⊢
    have ht : t = [] := by
      by_contra hne
      exact hslips (Slips.trailing hdigits hlt hc hne)
    subst ht
    refine ⟨_, IsSize.suffixed hdigits hc, ?_⟩
    by_contra hover
    exact hslips (Slips.overflow hdigits hlt hc (Nat.le_of_not_lt hover))

theorem size_strings (s : List Char) : ParsesSize s ↔ ¬ Slips s := by
  constructor
  · intro hparses hslips
    obtain ⟨hzero, hnone⟩ : (parseStrSize 0 s).1 = 0 ∧ _ := hslips.wrong
    exact hnone ((hparses 0).1.mp hzero)
  · intro hslips ptr
    have hstored : ∀ v, IsSize s v → v < 2 ^ 64 → parseStrSize ptr s = (0, v) :=
      fun v hsize hv => parseStrSize_isSize hsize hv
    refine ⟨⟨size_of_stored hslips, ?_⟩, fun v hsize hv => ?_, parseStrSize_failed⟩
    · rintro ⟨v, hsize, hv⟩
      rw [hstored v hsize hv]
    · rw [hstored v hsize hv]

/-- `-1` is stored as the greatest size. -/
theorem minus_one_stored :
    parseStrSize 0 "-1".toList = (0, 18446744073709551615) ∧ ¬ ParsesSize "-1".toList := by
  refine ⟨by decide, fun hparses => ?_⟩
  have hslips : Slips ([] ++ (['-'] ++ (['1'] ++ []))) :=
    Slips.front (fun c hc => nomatch hc) (Or.inr (Or.inr rfl)) (List.cons_ne_nil _ _)
      (by decide) (by decide) (Or.inl rfl)
  exact (size_strings "-1".toList).mp hparses hslips

end Config

end Nosv
