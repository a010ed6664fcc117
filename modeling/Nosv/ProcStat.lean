import Mathlib.Data.List.DropRight
import Nosv.Lib.CString

/-!
# The identity of a process

`generic/proc.h`: `parse_proc_stat` reads the pid and the start time of a
process from the line of its file `stat`. The second field of the line is
the name of the command, which may have any characters, brackets and spaces
among them; so the file is read up to its end for the last closing bracket.

A stream is a file that is read, with a position. `none` is an assertion
that fails, a loop that does not end, or a number that its type does not
hold, where the result of `fscanf` is undefined.
-/

namespace Nosv

open CString

structure FileStream where
  content : List Char
  pos : Nat
  eof : Bool
  deriving DecidableEq, Repr

/-- A part of a format -/
inductive Directive where
  | white
  /-- `%*c` -/
  | skipChar
  /-- `%*d` -/
  | skipInt
  /-- `%*u` -/
  | skipUnsigned
  /-- `%d` -/
  | int
  /-- `%llu` -/
  | ullong
  deriving DecidableEq, Repr

/-- The values that are assigned, and what has not been read -/
def scanFormat : List Directive → List Char → Option (List Int × List Char)
  | [], s => some ([], s)
  | .white :: ds, s => scanFormat ds (s.dropWhile isSpace)
  | .skipChar :: _, [] => some ([], [])
  | .skipChar :: ds, _ :: s => scanFormat ds s
  | .skipInt :: ds, s | .skipUnsigned :: ds, s =>
      match scanNumber s with
      | some n => scanFormat ds n.rest
      | none => some ([], s)
  | .int :: ds, s =>
      match scanNumber s with
      | some n =>
          if -2147483648 ≤ n.value ∧ n.value ≤ 2147483647 then
            (scanFormat ds n.rest).map fun (vs, s) => (n.value :: vs, s)
          else none
      | none => some ([], s)
  | .ullong :: ds, s =>
      match scanNumber s with
      | some n =>
          -- a minus sign negates the number in the unsigned type
          if digitsValue n.digits < 18446744073709551616 then
            (scanFormat ds n.rest).map fun (vs, s) => (n.value % 18446744073709551616 :: vs, s)
          else none
      | none => some ([], s)

namespace FileStream

/-- `fseek` with `SEEK_SET` -/
def fseek (fp : FileStream) (pos : Nat) : FileStream := { fp with pos := pos, eof := false }

/-- `none` is `EOF`. -/
def fgetc (fp : FileStream) : Option Char × FileStream :=
  match fp.content[fp.pos]? with
  | some c => (some c, { fp with pos := fp.pos + 1 })
  | none => (none, { fp with eof := true })

/-- The values that are assigned; `fscanf` returns their number, or `EOF`. -/
def fscanf (fp : FileStream) (format : List Directive) : Option (List Int × FileStream) :=
  (scanFormat format (fp.content.drop fp.pos)).map fun (vs, s) =>
    (vs, { fp with pos := fp.content.length - s.length, eof := fp.eof || s.isEmpty })

end FileStream

/-- `process_identifier_t` as `get_process` returns it, with `-1` for the pid
of no process -/
structure ProcessIdentifier where
  startTime : Nat
  pid : Int
  deriving DecidableEq, Repr

/-- The loop up to the end of the file: the position after the last closing
bracket. -/
def lastBracket : Nat → FileStream → Nat → Option (FileStream × Nat)
  | 0, _, _ => none
  | fuel + 1, fp, pos =>
      if fp.eof then some (fp, pos)
      else
        let (c, fp) := fp.fgetc
        lastBracket fuel fp (if c = some ')' then fp.pos else pos)

/-- The format of the fields from the third one on -/
def startTimeFormat : List Directive :=
  [.skipChar, .white, .skipInt, .white, .skipInt, .white, .skipInt, .white, .skipInt, .white, .skipInt,
   .white, .skipUnsigned, .white, .skipUnsigned, .white, .skipUnsigned, .white, .skipUnsigned,
   .white, .skipUnsigned, .white, .skipUnsigned, .white, .skipUnsigned, .white, .skipUnsigned,
   .white, .skipInt, .white, .skipInt, .white, .skipInt, .white, .skipInt, .white, .skipInt, .white, .ullong]

/-- `parse_proc_stat`: what it returns, and the identifier. `fseek` does not
fail. -/
def parseProcStat (pi : ProcessIdentifier) (fp : FileStream) : Option (Nat × ProcessIdentifier) :=
  (fp.fscanf [.int]).bind fun (vs, fp) =>
    match vs with
    | [pid] =>
        let pi := { pi with pid := pid }
        (lastBracket (fp.content.length + 2) (fp.fseek 0) 0).bind fun (fp, pos) =>
          if 0 < pos then
            ((fp.fseek (pos + 1)).fscanf startTimeFormat).map fun (vs, _) =>
              match vs with
              | [startTime] =>
                  (if startTime = 0 then 1 else 0, { pi with startTime := startTime.toNat })
              | _ => (1, pi)
          else none
    | _ => some (1, pi)

/-- `get_process`; there is no file for a process that has died. -/
def getProcess (file : Option (List Char)) : Option ProcessIdentifier :=
  match file with
  | none => some ⟨0, -1⟩
  | some content =>
      (parseProcStat ⟨0, -1⟩ ⟨content, 0, false⟩).map fun (ret, pi) => if ret ≠ 0 then { pi with pid := -1 } else pi

/-! ## The line of a process -/

/-- A decimal number, which may have a minus sign -/
def IsField (s : List Char) : Prop :=
  ∃ (negative : Bool) (digits : List Char), s = (if negative then ['-'] else []) ++ digits ∧ IsNumeral digits

instance (s : List Char) : Decidable (IsField s) :=
  decidable_of_iff (IsNumeral s ∨ s.head? = some '-' ∧ IsNumeral s.tail) <| by
    constructor
    · rintro (hs | ⟨hhead, htail⟩)
      · exact ⟨false, s, rfl, hs⟩
      · exact ⟨true, s.tail, (List.cons_head?_tail hhead).symm, htail⟩
    · rintro ⟨negative, digits, rfl, hdigits⟩
      cases negative with
      | false => exact Or.inl hdigits
      | true => exact Or.inr ⟨rfl, hdigits⟩

/-- What the kernel prints about a process: the fields 4 to 21 are
`before`, and the fields 23 to 52 are `after`. -/
structure StatLine where
  pid : Nat
  comm : List Char
  state : Char
  before : List (List Char)
  startTime : Nat
  after : List (List Char)
  pid_pos : 0 < pid
  pid_int : pid ≤ 2147483647
  state_letter : state.isAlpha = true
  before_length : before.length = 18
  before_fields : ∀ s ∈ before, IsField s
  startTime_ullong : startTime < 18446744073709551616
  after_length : after.length = 30
  after_fields : ∀ s ∈ after, IsField s

/-- Fields with a space before each -/
def fieldsText (fields : List (List Char)) : List Char := fields.flatMap fun s => ' ' :: s

namespace StatLine

/-- What follows the name of the command, and its bracket -/
def tail (line : StatLine) : List Char :=
  line.state :: (fieldsText line.before
    ++ (' ' :: (Nat.toDigits 10 line.startTime ++ (fieldsText line.after ++ ['\n']))))

def text (line : StatLine) : List Char :=
  Nat.toDigits 10 line.pid ++ (' ' :: '(' :: line.comm ++ (')' :: ' ' :: line.tail))

end StatLine

/-! ## Reading the fields -/

variable {s digits rest : List Char} {ds : List Directive} {fields : List (List Char)} {c : Char}

theorem scanNumber_dropWhile (s : List Char) : scanNumber (s.dropWhile isSpace) = scanNumber s := by
  rw [scanNumber, scanNumber, List.dropWhile_idempotent]

theorem stops_fieldsText (fields : List (List Char)) (hrest : Stops rest) : Stops (fieldsText fields ++ rest) := by
  cases fields with
  | nil => exact hrest
  | cons s fields => exact stops_cons.mpr (by decide)

theorem scanNumber_space (s : List Char) : scanNumber (' ' :: s) = scanNumber s :=
  scanNumber_spaces (t := [' ']) (by simp [isSpace])

theorem scanNumber_field (hs : IsField s) (hrest : Stops rest) :
    ∃ negative digits, scanNumber (s ++ rest) = some ⟨negative, digits, rest⟩ := by
  obtain ⟨negative, digits, rfl, hdigits⟩ := hs
  refine ⟨negative, digits, ?_⟩
  rw [List.append_assoc]
  refine scanNumber_signed hdigits hrest ?_
  cases negative <;> simp

/-- Conversions that assign nothing pass over as many fields. -/
theorem scanFormat_skip (more : List Directive) (hrest : Stops rest) :
    ∀ (ds : List Directive) (fields : List (List Char)), ds.length = fields.length →
      (∀ d ∈ ds, d = .skipInt ∨ d = .skipUnsigned) → (∀ s ∈ fields, IsField s) →
      scanFormat (ds.flatMap (fun d => [.white, d]) ++ more) (fieldsText fields ++ rest) = scanFormat more rest
  | [], [], _, _, _ => rfl
  | d :: ds, s :: fields, hlen, hds, hfields => by
      obtain ⟨negative, digits, hscan⟩ := scanNumber_field (hfields s List.mem_cons_self)
        (stops_fieldsText fields hrest)
      have hnumber : scanNumber ((fieldsText (s :: fields) ++ rest).dropWhile isSpace)
          = some ⟨negative, digits, fieldsText fields ++ rest⟩ := by
        rw [scanNumber_dropWhile, fieldsText, List.flatMap_cons, List.cons_append, List.cons_append,
          scanNumber_space, List.append_assoc]
        exact hscan
      have hmore := scanFormat_skip more hrest ds fields (Nat.succ.inj hlen)
        (fun d hd => hds d (List.mem_cons_of_mem _ hd)) fun s hs => hfields s (List.mem_cons_of_mem _ hs)
      rw [List.flatMap_cons, List.append_assoc]
      rcases hds d List.mem_cons_self with rfl | rfl
      · show scanFormat (.white :: .skipInt :: _) _ = _
        rw [scanFormat, scanFormat, hnumber]
        exact hmore
      · show scanFormat (.white :: .skipUnsigned :: _) _ = _
        rw [scanFormat, scanFormat, hnumber]
        exact hmore

/-! ## The last bracket -/

/-- The position after the last closing bracket of what is still to be read
from position `p` on, `pos` if there is none. -/
def lastFrom : List Char → Nat → Nat → Nat
  | [], _, pos => pos
  | c :: s, p, pos => lastFrom s (p + 1) (if c = ')' then p + 1 else pos)

theorem lastFrom_append (s t : List Char) (p pos : Nat) :
    lastFrom (s ++ t) p pos = lastFrom t (p + s.length) (lastFrom s p pos) := by
  induction s generalizing p pos with
  | nil => rfl
  | cons c s ih => rw [List.cons_append, lastFrom, ih, lastFrom, List.length_cons, Nat.add_right_comm, Nat.add_assoc]

theorem lastFrom_of_notMem {p pos : Nat} (h : ')' ∉ s) : lastFrom s p pos = pos := by
  induction s generalizing p with
  | nil => rfl
  | cons c s ih =>
      obtain ⟨hc, hs⟩ := not_or.mp fun hor => h (List.mem_cons.mpr hor)
      rw [lastFrom, if_neg (Ne.symm hc), ih hs]

/-- The loop ends at the end of the file. -/
theorem lastBracket_eq : ∀ {s : List Char} (fp : FileStream) {fuel : Nat} (pos : Nat), fp.eof = false →
    fp.content.drop fp.pos = s → s.length + 2 ≤ fuel →
      ∃ fp', lastBracket fuel fp pos = some (fp', lastFrom s fp.pos pos) ∧ fp'.content = fp.content
  | [], fp, fuel + 2, pos, heof, hdrop, _ => by
      have hnone : fp.content[fp.pos]? = none := by rw [← List.head?_drop, hdrop]; rfl
      refine ⟨{ fp with eof := true }, ?_, rfl⟩
      rw [lastBracket, heof, if_neg Bool.false_ne_true, FileStream.fgetc, hnone]
      rfl
  | c :: s, fp, fuel + 1, pos, heof, hdrop, hfuel => by
      have hsome : fp.content[fp.pos]? = some c := by rw [← List.head?_drop, hdrop]; rfl
      have hrest : fp.content.drop (fp.pos + 1) = s := by
        rw [← List.drop_drop, hdrop]
        rfl
      have hle : s.length + 2 ≤ fuel := by
        rw [List.length_cons] at hfuel
        omega
      obtain ⟨fp', hloop, hcontent⟩ := lastBracket_eq { fp with pos := fp.pos + 1 }
        (if c = ')' then fp.pos + 1 else pos) heof hrest hle
      refine ⟨fp', ?_, hcontent⟩
      have hc : (if some c = some ')' then fp.pos + 1 else pos) = if c = ')' then fp.pos + 1 else pos := by
        simp only [Option.some.injEq]
      rw [lastBracket, heof, if_neg Bool.false_ne_true, FileStream.fgetc, hsome]
      dsimp only
      rw [hc]
      exact hloop

/-! ## The whole line -/

theorem bracket_notMem_numeral (h : IsNumeral digits) : ')' ∉ digits := fun hc =>
  absurd (h.digits _ hc) (by decide)

theorem bracket_notMem_fieldsText (h : ∀ s ∈ fields, IsField s) : ')' ∉ fieldsText fields := by
  intro hc
  obtain ⟨s, hs, hin⟩ := List.mem_flatMap.mp hc
  obtain ⟨negative, digits, rfl, hdigits⟩ := h s hs
  rcases List.mem_cons.mp hin with heq | hin
  · exact absurd heq (by decide)
  · rcases List.mem_append.mp hin with hsign | hin
    · cases negative <;> simp at hsign
    · exact bracket_notMem_numeral hdigits hin

namespace StatLine

variable (line : StatLine)

/-- The last closing bracket is the one after the name of the command. -/
theorem bracket_notMem_tail : ')' ∉ ' ' :: line.tail := by
  have hstate : ')' ≠ line.state := by
    intro heq
    have hletter := line.state_letter
    rw [← heq] at hletter
    exact absurd hletter (by decide)
  have hbefore := bracket_notMem_fieldsText line.before_fields
  have hafter := bracket_notMem_fieldsText line.after_fields
  have hstart := bracket_notMem_numeral (isNumeral_toDigits line.startTime)
  simp [tail, hstate, hbefore, hafter, hstart]

theorem stops_text : Stops (' ' :: '(' :: line.comm ++ (')' :: ' ' :: line.tail)) := stops_cons.mpr (by decide)

/-- The format takes field 22 from what follows the bracket and a space. -/
theorem scanFormat_tail : ∃ s, scanFormat startTimeFormat line.tail = some ([(line.startTime : Int)], s) := by
  have hformat : startTimeFormat = .skipChar :: ((List.replicate 5 Directive.skipInt
      ++ List.replicate 8 Directive.skipUnsigned ++ List.replicate 5 Directive.skipInt).flatMap
        (fun d => [.white, d]) ++ [.white, .ullong]) := rfl
  have hafter : Stops (fieldsText line.after ++ ['\n']) := stops_fieldsText _ (stops_cons.mpr (by decide))
  have hstart : Stops (' ' :: (Nat.toDigits 10 line.startTime ++ (fieldsText line.after ++ ['\n']))) :=
    stops_cons.mpr (by decide)
  have hskips : ∀ d ∈ List.replicate 5 Directive.skipInt ++ List.replicate 8 Directive.skipUnsigned
      ++ List.replicate 5 Directive.skipInt, d = .skipInt ∨ d = .skipUnsigned := by decide
  have hnumber : scanNumber ((' ' :: (Nat.toDigits 10 line.startTime
      ++ (fieldsText line.after ++ ['\n']))).dropWhile isSpace)
        = some ⟨false, Nat.toDigits 10 line.startTime, fieldsText line.after ++ ['\n']⟩ := by
    rw [scanNumber_dropWhile, scanNumber_space]
    exact scanNumber_numeral (isNumeral_toDigits _) hafter
  refine ⟨fieldsText line.after ++ ['\n'], ?_⟩
  rw [hformat, tail, scanFormat, scanFormat_skip _ hstart _ _ (by rw [line.before_length]; rfl) hskips line.before_fields,
    scanFormat, scanFormat, hnumber]
  have hvalue : Number.value ⟨false, Nat.toDigits 10 line.startTime, fieldsText line.after ++ ['\n']⟩
      = (line.startTime : Int) := by
    rw [Number.value, digitsValue_toDigits]
    rfl
  have hlt := line.startTime_ullong
  dsimp only
  rw [digitsValue_toDigits, if_pos hlt, hvalue, scanFormat, Option.map_some,
    Int.emod_eq_of_lt (Int.natCast_nonneg _) (by omega)]

/-- The pid is read from the beginning of the line. -/
theorem scanFormat_pid : ∃ s, scanFormat [.int] line.text = some ([(line.pid : Int)], s) := by
  have hnumber : scanNumber line.text
      = some ⟨false, Nat.toDigits 10 line.pid, ' ' :: '(' :: line.comm ++ (')' :: ' ' :: line.tail)⟩ :=
    scanNumber_numeral (isNumeral_toDigits _) line.stops_text
  have hvalue : Number.value
      ⟨false, Nat.toDigits 10 line.pid, ' ' :: '(' :: line.comm ++ (')' :: ' ' :: line.tail)⟩ = (line.pid : Int) := by
    rw [Number.value, digitsValue_toDigits]
    rfl
  have hint := line.pid_int
  refine ⟨' ' :: '(' :: line.comm ++ (')' :: ' ' :: line.tail), ?_⟩
  rw [scanFormat, hnumber]
  dsimp only
  rw [hvalue, if_pos (by omega), scanFormat, Option.map_some]

/-- `parse_proc_stat` stores the pid and field 22 of every line, whatever the
name of the command is, and returns 0 unless field 22 is zero. -/
theorem parse_proc_stat_line (pi : ProcessIdentifier) :
    ∃ ret, parseProcStat pi ⟨line.text, 0, false⟩ = some (ret, ⟨line.startTime, line.pid⟩)
      ∧ (ret = 0 ↔ line.startTime ≠ 0) := by
  obtain ⟨s, hpid⟩ := line.scanFormat_pid
  obtain ⟨t, htail⟩ := line.scanFormat_tail
  -- the position after the bracket, and what follows it
  obtain ⟨head, hhead⟩ : ∃ head, head = Nat.toDigits 10 line.pid ++ (' ' :: '(' :: line.comm) := ⟨_, rfl⟩
  have htext : line.text = head ++ (')' :: ' ' :: line.tail) := by rw [hhead, text, List.append_assoc]
  have hlast : lastFrom line.text 0 0 = head.length + 1 := by
    rw [htext, lastFrom_append, lastFrom, if_pos rfl, lastFrom_of_notMem line.bracket_notMem_tail, Nat.zero_add]
  have hdrop : line.text.drop (head.length + 1 + 1) = line.tail := by
    rw [htext, ← List.drop_drop, ← List.drop_drop, List.drop_left]
    rfl
  have hfirst : FileStream.fscanf ⟨line.text, 0, false⟩ [.int]
      = some ([(line.pid : Int)], ⟨line.text, line.text.length - s.length, false || s.isEmpty⟩) := by
    rw [FileStream.fscanf, List.drop_zero, hpid, Option.map_some]
  obtain ⟨fp, hloop, hcontent⟩ := lastBracket_eq (s := line.text) ⟨line.text, 0, false⟩ 0 rfl rfl
    (Nat.le_refl _)
  have hsecond : (fp.fseek (head.length + 1 + 1)).fscanf startTimeFormat
      = some ([(line.startTime : Int)], ⟨line.text, line.text.length - t.length, false || t.isEmpty⟩) := by
    obtain ⟨content, pos, eof⟩ := fp
    dsimp only at hcontent
    subst hcontent
    rw [FileStream.fscanf, FileStream.fseek]
    dsimp only
    rw [hdrop, htail, Option.map_some]
  refine ⟨if (line.startTime : Int) = 0 then 1 else 0, ?_, ?_⟩
  · rw [parseProcStat, hfirst, Option.bind_some]
    dsimp only
    rw [FileStream.fseek]
    dsimp only
    rw [hloop, Option.bind_some]
    dsimp only
    rw [hlast, if_pos (Nat.succ_pos _), hsecond, Option.map_some]
    rfl
  · split <;> omega

/-- A command whose name looks like the fields that follow it -/
theorem parse_proc_stat_line_brackets :
    ∃ line : StatLine, line.comm = ") R 1".toList
      ∧ ∃ ret, parseProcStat ⟨0, -1⟩ ⟨line.text, 0, false⟩ = some (ret, ⟨99, 7⟩) ∧ (ret = 0 ↔ 99 ≠ 0) :=
  ⟨⟨7, ") R 1".toList, 'S', List.replicate 18 ['1'], 99, List.replicate 30 ['1'], by decide, by decide,
    by decide, rfl, by decide, by decide, rfl, by decide⟩, rfl, parse_proc_stat_line _ ⟨0, -1⟩⟩

/-- `get_process` tells a process without a start time from one that has
one. -/
theorem getProcess_line : getProcess (some line.text)
    = some ⟨line.startTime, if line.startTime = 0 then -1 else line.pid⟩ := by
  obtain ⟨ret, hparse, hret⟩ := line.parse_proc_stat_line ⟨0, -1⟩
  rw [getProcess]
  dsimp only
  rw [hparse, Option.map_some]
  dsimp only
  by_cases hstart : line.startTime = 0
  · rw [if_pos fun heq => hret.mp heq hstart, if_pos hstart]
  · rw [if_neg (not_not_intro (hret.mpr hstart)), if_neg hstart]

end StatLine

end Nosv
