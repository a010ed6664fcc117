import Mathlib.Data.List.Basic
import Mathlib.Data.List.TakeWhile
import Mathlib.Data.Int.Basic
import Mathlib.Tactic.Common

/-!
# Numbers and fields in C strings

A C string is the list of its characters before the null character.
`strtoll`, `strtoull` and `sscanf` with `%d` read the same thing, a
`Number`: white space, a sign, and the longest run of digits; they differ
in the numbers that they can give back. `sscanf` is for a format of `%d`
conversions with a character between each two of them.
-/

namespace CString

/-! ## Reading a number -/

/-- `isspace` -/
def isSpace (c : Char) : Bool := c = ' ' || ('\t'.toNat ≤ c.toNat && c.toNat ≤ '\r'.toNat)

/-- The sign, `true` for minus, and what follows -/
def scanSign : List Char → Bool × List Char
  | '-' :: s => (true, s)
  | '+' :: s => (false, s)
  | s => (false, s)

/-- The value of a string of digits -/
abbrev digitsValue (digits : List Char) : Nat := Nat.ofDigitChars 10 digits 0

/-- A number, and what follows it -/
structure Number where
  negative : Bool
  digits : List Char
  rest : List Char
  deriving DecidableEq, Repr

def Number.value (n : Number) : Int :=
  if n.negative then -(digitsValue n.digits : Int) else digitsValue n.digits

/-- `none` when there are no digits -/
def scanNumber (s : List Char) : Option Number :=
  let (negative, t) := scanSign (s.dropWhile isSpace)
  if t.takeWhile Char.isDigit = [] then none
  else some ⟨negative, t.takeWhile Char.isDigit, t.dropWhile Char.isDigit⟩

/-- What `strtoll` and `strtoull` give: the value, whether `errno` is set to
`ERANGE`, and the string that `endptr` points to. -/
structure Converted where
  value : Int
  erange : Bool
  endptr : List Char
  deriving DecidableEq, Repr

def strtoll (s : List Char) : Converted :=
  match scanNumber s with
  | none => ⟨0, false, s⟩
  | some n =>
      if n.value < -9223372036854775808 then ⟨-9223372036854775808, true, n.rest⟩
      else if 9223372036854775807 < n.value then ⟨9223372036854775807, true, n.rest⟩
      else ⟨n.value, false, n.rest⟩

/-- A minus sign negates the value as an unsigned one. -/
def strtoull (s : List Char) : Converted :=
  match scanNumber s with
  | none => ⟨0, false, s⟩
  | some n =>
      if 18446744073709551616 ≤ digitsValue n.digits then ⟨18446744073709551615, true, n.rest⟩
      else ⟨n.value % 18446744073709551616, false, n.rest⟩

/-- The conversions after the first one, each behind its separator -/
def scanMore : List Char → List Char → List Int
  | sep :: seps, c :: s =>
      if c = sep then
        match scanNumber s with
        | some n => n.value :: scanMore seps n.rest
        | none => []
      else []
  | [], _ | _ :: _, [] => []

/-- `sscanf` for a `%d` and one more behind each separator: the numbers
read, `none` for `EOF`. -/
def sscanf (seps s : List Char) : Option (List Int) :=
  if s.dropWhile isSpace = [] then none
  else
    match scanNumber s with
    | some n => some (n.value :: scanMore seps n.rest)
    | none => some []

/-- The tokens of `strtok` -/
def strtok (sep : Char) (s : List Char) : List (List Char) := (s.splitOn sep).filter (· ≠ [])

/-! ## Numerals -/

/-- A decimal number without a sign -/
structure IsNumeral (s : List Char) : Prop where
  nonempty : s ≠ []
  digits : ∀ c ∈ s, c.isDigit = true

instance (s : List Char) : Decidable (IsNumeral s) :=
  decidable_of_iff (s ≠ [] ∧ s.all Char.isDigit = true)
    ⟨fun h => ⟨h.1, List.all_eq_true.mp h.2⟩, fun h => ⟨h.1, List.all_eq_true.mpr h.2⟩⟩

/-- Nothing that a number would go on with -/
def Stops (s : List Char) : Prop := ∀ c ∈ s.head?, c.isDigit = false

variable {s t digits rest : List Char} {c : Char} {n : Number}

theorem stops_nil : Stops [] := fun _ h => by cases h

theorem stops_cons : Stops (c :: s) ↔ c.isDigit = false := by
  simp [Stops]

theorem isSpace_of_isDigit (h : c.isDigit = true) : isSpace c = false := by
  unfold isSpace
  simp only [Char.isDigit, Bool.and_eq_true, decide_eq_true_eq, UInt32.le_iff_toNat_le] at h
  have hlow : 48 ≤ c.toNat := h.1
  have hspace : c ≠ ' ' := by
    rintro rfl
    revert hlow
    decide
  rw [decide_eq_false hspace, Bool.false_or, Bool.and_eq_false_iff]
  refine Or.inr (decide_eq_false ?_)
  rw [Nat.not_le]
  exact Nat.lt_of_lt_of_le (by decide) hlow

theorem IsNumeral.append (h : IsNumeral s) (ht : IsNumeral t) : IsNumeral (s ++ t) :=
  ⟨List.append_ne_nil_of_left_ne_nil h.nonempty t, fun c hc =>
    (List.mem_append.mp hc).elim (h.digits c) (ht.digits c)⟩

theorem takeWhile_digits (h : ∀ c ∈ digits, c.isDigit = true) (hrest : Stops rest) :
    (digits ++ rest).takeWhile Char.isDigit = digits := by
  rw [List.takeWhile_append_of_pos h]
  cases rest with
  | nil => simp
  | cons c s => simp [stops_cons.mp hrest]

theorem dropWhile_digits (h : ∀ c ∈ digits, c.isDigit = true) (hrest : Stops rest) :
    (digits ++ rest).dropWhile Char.isDigit = rest := by
  rw [List.dropWhile_append_of_pos h]
  cases rest with
  | nil => rfl
  | cons c s => simp [stops_cons.mp hrest]

theorem IsNumeral.exists_cons (h : IsNumeral digits) :
    ∃ c s, digits = c :: s ∧ c.isDigit = true := by
  obtain ⟨c, s, rfl⟩ := List.exists_cons_of_ne_nil h.nonempty
  exact ⟨c, s, rfl, h.digits c List.mem_cons_self⟩

theorem scanSign_of_isDigit (hc : c.isDigit = true) : scanSign (c :: s) = (false, c :: s) := by
  unfold scanSign
  split
  · rename_i heq
    cases heq
    cases hc
  · rename_i heq
    cases heq
    cases hc
  · rfl

/-- A numeral is read as it stands. -/
theorem scanNumber_numeral (h : IsNumeral digits) (hrest : Stops rest) :
    scanNumber (digits ++ rest) = some ⟨false, digits, rest⟩ := by
  obtain ⟨c, s, rfl, hc⟩ := h.exists_cons
  have hspace : (c :: s ++ rest).dropWhile isSpace = c :: s ++ rest := by
    rw [List.cons_append, List.dropWhile_cons_of_neg]
    rw [isSpace_of_isDigit hc]
    exact Bool.false_ne_true
  unfold scanNumber
  rw [hspace, List.cons_append, scanSign_of_isDigit hc]
  dsimp only
  rw [← List.cons_append, takeWhile_digits h.digits hrest, dropWhile_digits h.digits hrest,
    if_neg h.nonempty]

/-- White space before a number is skipped. -/
theorem scanNumber_spaces (h : ∀ c ∈ t, isSpace c = true) : scanNumber (t ++ s) = scanNumber s := by
  rw [scanNumber, scanNumber, List.dropWhile_append_of_pos h]

/-- A sign before a numeral -/
theorem scanNumber_signed {sign : List Char} {negative : Bool} (h : IsNumeral digits) (hrest : Stops rest)
    (hsign : sign = [] ∧ negative = false ∨ sign = ['+'] ∧ negative = false
      ∨ sign = ['-'] ∧ negative = true) :
    scanNumber (sign ++ (digits ++ rest)) = some ⟨negative, digits, rest⟩ := by
  rcases hsign with ⟨rfl, rfl⟩ | ⟨rfl, rfl⟩ | ⟨rfl, rfl⟩
  · exact scanNumber_numeral h hrest
  · have hspace : (['+'] ++ (digits ++ rest)).dropWhile isSpace = '+' :: (digits ++ rest) := rfl
    unfold scanNumber
    rw [hspace, scanSign]
    dsimp only
    rw [takeWhile_digits h.digits hrest, dropWhile_digits h.digits hrest, if_neg h.nonempty]
  · have hspace : (['-'] ++ (digits ++ rest)).dropWhile isSpace = '-' :: (digits ++ rest) := rfl
    unfold scanNumber
    rw [hspace, scanSign]
    dsimp only
    rw [takeWhile_digits h.digits hrest, dropWhile_digits h.digits hrest, if_neg h.nonempty]

/-- What has been read, piece by piece -/
theorem scanNumber_eq_some (h : scanNumber s = some n) :
    ∃ space sign, s = space ++ (sign ++ (n.digits ++ n.rest)) ∧ (∀ c ∈ space, isSpace c = true)
      ∧ (sign = [] ∧ n.negative = false ∨ sign = ['+'] ∧ n.negative = false
        ∨ sign = ['-'] ∧ n.negative = true)
      ∧ IsNumeral n.digits ∧ Stops n.rest := by
  unfold scanNumber at h
  obtain ⟨negative, t, hsign⟩ : ∃ negative t, scanSign (s.dropWhile isSpace) = (negative, t) := ⟨_, _, rfl⟩
  rw [hsign] at h
  dsimp only at h
  split at h
  · cases h
  case isFalse hne =>
    obtain rfl := Option.some.inj h
    have hpieces : ∃ sign, s.dropWhile isSpace = sign ++ t ∧ (sign = [] ∧ negative = false
        ∨ sign = ['+'] ∧ negative = false ∨ sign = ['-'] ∧ negative = true) := by
      unfold scanSign at hsign
      split at hsign
      · rename_i u heq
        obtain ⟨rfl, rfl⟩ := Prod.mk.inj hsign
        exact ⟨['-'], heq, Or.inr (Or.inr ⟨rfl, rfl⟩)⟩
      · rename_i u heq
        obtain ⟨rfl, rfl⟩ := Prod.mk.inj hsign
        exact ⟨['+'], heq, Or.inr (Or.inl ⟨rfl, rfl⟩)⟩
      · obtain ⟨rfl, rfl⟩ := Prod.mk.inj hsign
        exact ⟨[], rfl, Or.inl ⟨rfl, rfl⟩⟩
    obtain ⟨sign, heq, hcases⟩ := hpieces
    refine ⟨s.takeWhile isSpace, sign, ?_, fun c hc => ?_, hcases, ⟨hne, fun c hc => ?_⟩, fun c hc => ?_⟩
    · rw [List.takeWhile_append_dropWhile, ← heq, List.takeWhile_append_dropWhile]
    · exact List.mem_takeWhile_imp hc
    · exact List.mem_takeWhile_imp hc
    · have hnot := List.head?_dropWhile_not Char.isDigit t
      rw [Option.mem_def] at hc
      rw [hc] at hnot
      simpa using hnot

/-- Without digits after white space and a sign, nothing is read. -/
theorem scanNumber_eq_none_iff :
    scanNumber s = none ↔ Stops (scanSign (s.dropWhile isSpace)).2 := by
  unfold scanNumber
  dsimp only
  generalize (scanSign (s.dropWhile isSpace)).2 = t
  cases t with
  | nil => simp [stops_nil]
  | cons c u =>
      rw [stops_cons]
      cases hc : c.isDigit with
      | false => simp [hc]
      | true => simp [hc]

/-! ## Conversions -/

theorem scanMore_sep {sep : Char} {seps : List Char} (h : IsNumeral digits) (hrest : Stops rest) :
    scanMore (sep :: seps) (sep :: (digits ++ rest)) = (digitsValue digits : Int) :: scanMore seps rest := by
  rw [scanMore, if_pos rfl, scanNumber_numeral h hrest]
  rfl

theorem scanMore_stop {sep : Char} {seps : List Char} (hs : s.head? ≠ some sep) :
    scanMore (sep :: seps) s = [] := by
  cases s with
  | nil => rfl
  | cons c s =>
      rw [scanMore, if_neg fun heq => hs (by rw [heq]; rfl)]

theorem sscanf_numeral {seps : List Char} (h : IsNumeral digits) (hrest : Stops rest) :
    sscanf seps (digits ++ rest) = some ((digitsValue digits : Int) :: scanMore seps rest) := by
  have hne : (digits ++ rest).dropWhile isSpace ≠ [] := by
    obtain ⟨c, s, rfl, hc⟩ := h.exists_cons
    rw [List.cons_append, List.dropWhile_cons_of_neg]
    · exact List.cons_ne_nil c _
    · rw [isSpace_of_isDigit hc]
      exact Bool.false_ne_true
  rw [sscanf, if_neg hne, scanNumber_numeral h hrest]
  rfl

/-! ## Fields -/

theorem strtok_intercalate {sep : Char} {fields : List (List Char)}
    (h : ∀ field ∈ fields, field ≠ [] ∧ sep ∉ field) :
    strtok sep ([sep].intercalate fields) = fields := by
  by_cases hnil : fields = []
  · subst hnil
    rfl
  · rw [strtok, List.splitOn_intercalate sep (fun l hl => (h l hl).2) hnil, List.filter_eq_self]
    intro l hl
    exact decide_eq_true (h l hl).1

/-- The last field may be written with what stands behind the fields. -/
theorem intercalate_append {sep : Char} (fields : List (List Char)) (last t : List Char) :
    [sep].intercalate (fields ++ [last]) ++ t = [sep].intercalate (fields ++ [last ++ t]) := by
  induction fields with
  | nil => simp [List.intercalate]
  | cons field fields ih =>
      cases fields with
      | nil => simp [List.intercalate]
      | cons field' fields =>
          simp only [List.intercalate, List.cons_append, List.intersperse_cons_cons, List.flatten_cons,
            List.append_assoc] at ih ⊢
          rw [ih]

/-! ## Writing a number -/

theorem isNumeral_toDigits (n : Nat) : IsNumeral (Nat.toDigits 10 n) :=
  ⟨Nat.toDigits_ne_nil, fun _ hc => Nat.isDigit_of_mem_toDigits (by decide) (by decide) hc⟩

theorem digitsValue_toDigits (n : Nat) : digitsValue (Nat.toDigits 10 n) = n :=
  Nat.ofDigitChars_ten_toDigits

end CString
