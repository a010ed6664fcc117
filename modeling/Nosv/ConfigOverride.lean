import Nosv.BindingMask
import Nosv.ConfigSize

/-!
# Options from the file and from the environment

An option is set from the TOML file by `config_parse_single_element`, over
what the TOML library gives for the key, and from `NOSV_CONFIG_OVERRIDE` by
`config_parse_override`, over the text of the value. Both go by the table of
options. A parse function gives its return value and what is at `ptr` after
it.

The TOML library gives an integer of the file back if it has 64 bits.
-/

namespace Nosv

open CString

namespace Config

/-- `enum config_spec_type` -/
inductive SpecType where
  | int64
  | ptr
  | uint64
  | size
  | str
  | bool
  | listStr
  deriving DecidableEq

/-- `config_spec_t`; the member stands for its offset. -/
structure ConfigSpec (μ : Type) where
  type : SpecType
  dimensions : Nat
  name : List Char
  member : μ

/-- What a member of `rt_config_t` holds -/
inductive Value where
  | int (i : Int)
  | str (s : Option (List Char))
  | strings (l : List (List Char))
  deriving DecidableEq

/-- What stands behind a key of the TOML file -/
inductive TomlValue where
  | int (i : Int)
  | string (s : List Char)
  | bool (b : Bool)
  | array (items : List TomlValue)
  | other

abbrev TomlTable := List Char → Option TomlValue

/-! ## Values from TOML -/

def InInt64 (i : Int) : Prop := -9223372036854775808 ≤ i ∧ i ≤ 9223372036854775807

instance (i : Int) : Decidable (InInt64 i) := inferInstanceAs (Decidable (_ ∧ _))

/-- `toml_int_in` -/
def tomlIntIn (table : TomlTable) (name : List Char) : Option Int :=
  match table name with
  | some (.int i) => if InInt64 i then some i else none
  | _ => none

/-- `toml_string_in` -/
def tomlStringIn (table : TomlTable) (name : List Char) : Option (List Char) :=
  match table name with
  | some (.string s) => some s
  | _ => none

/-- `toml_bool_in` -/
def tomlBoolIn (table : TomlTable) (name : List Char) : Option Bool :=
  match table name with
  | some (.bool b) => some b
  | _ => none

/-- `toml_table_parse_int64` -/
def tomlTableParseInt64 (ptr : Value) (table : TomlTable) (name : List Char) : Int × Value :=
  match tomlIntIn table name with
  | some i => (0, .int i)
  | none => (1, ptr)

/-- `toml_table_parse_ptr` -/
def tomlTableParsePtr (ptr : Value) (table : TomlTable) (name : List Char) : Int × Value :=
  match tomlIntIn table name with
  | some i => (0, .int (i % 18446744073709551616))
  | none => (1, ptr)

/-- `toml_table_parse_uint64` -/
def tomlTableParseUint64 (ptr : Value) (table : TomlTable) (name : List Char) : Int × Value :=
  match tomlIntIn table name with
  | some i => if 0 ≤ i then (0, .int i) else (1, ptr)
  | none => (1, ptr)

/-- What `parse_str_size` does to a member -/
def parseSize (ptr : Value) (s : List Char) : Int × Value :=
  if (parseStrSize 0 s).1 = 0 then (0, .int (parseStrSize 0 s).2) else (1, ptr)

/-- `toml_table_parse_size` -/
def tomlTableParseSize (ptr : Value) (table : TomlTable) (name : List Char) : Int × Value :=
  match tomlStringIn table name with
  | some s => parseSize ptr s
  | none => (1, ptr)

/-- An empty string is kept as `NULL`. -/
def keptString (s : List Char) : Value := .str (if s = [] then none else some s)

/-- `toml_table_parse_str` -/
def tomlTableParseStr (ptr : Value) (table : TomlTable) (name : List Char) : Int × Value :=
  match tomlStringIn table name with
  | some s => (0, keptString s)
  | none => (1, ptr)

/-- `toml_table_parse_bool` -/
def tomlTableParseBool (ptr : Value) (table : TomlTable) (name : List Char) : Int × Value :=
  match tomlBoolIn table name with
  | some b => (0, .int b.toNat)
  | none => (1, ptr)

/-- The strings of an array up to the first item that is none -/
def parseStrings : List TomlValue → Int × List (List Char)
  | .string s :: items => ((parseStrings items).1, s :: (parseStrings items).2)
  | [] => (0, [])
  | _ :: _ => (1, [])

/-- `toml_table_parse_list_str`; without an array, a null pointer is used. -/
def tomlTableParseListStr (table : TomlTable) (name : List Char) : Option (Int × Value) :=
  match table name with
  | some (.array items) => some ((parseStrings items).1, .strings (parseStrings items).2)
  | _ => none

/-! ## Values from text -/

/-- `string_parse_int64` -/
def stringParseInt64 (ptr : Value) (value : List Char) : Int × Value :=
  if (strtoll value).erange then (1, ptr) else (0, .int (strtoll value).value)

/-- `string_parse_uint64` -/
def stringParseUint64 (ptr : Value) (value : List Char) : Int × Value :=
  if (strtoull value).erange then (1, ptr) else (0, .int (strtoull value).value)

/-- The digits that `strtoull` reads in base 16, behind an optional `0x` -/
def hexDigitsOf (s : List Char) : List Char :=
  match s with
  | '0' :: x :: c :: rest =>
      if (x = 'x' ∨ x = 'X') ∧ c ∈ BindingMask.hexChars
      then (c :: rest).takeWhile (· ∈ BindingMask.hexChars) else s.takeWhile (· ∈ BindingMask.hexChars)
  | _ => s.takeWhile (· ∈ BindingMask.hexChars)

/-- `string_parse_ptr` -/
def stringParsePtr (ptr : Value) (value : List Char) : Int × Value :=
  match value with
  | '0' :: 'x' :: rest =>
      let (negative, s) := scanSign (rest.dropWhile isSpace)
      let val := BindingMask.hexValue (hexDigitsOf s)
      if 18446744073709551616 ≤ val then (1, ptr)
      else (0, .int ((if negative then -(val : Int) else val) % 18446744073709551616))
  | _ => (1, ptr)

/-- `string_parse_bool` -/
def stringParseBool (ptr : Value) (value : List Char) : Int × Value :=
  if value = "true".toList then (0, .int 1)
  else if value = "false".toList then (0, .int 0)
  else (1, ptr)

/-- The `switch` of `config_parse_single_override` -/
def stringParse (ptr : Value) (value : List Char) : SpecType → Int × Value
  | .int64 => stringParseInt64 ptr value
  | .ptr => stringParsePtr ptr value
  | .size => parseSize ptr value
  | .uint64 => stringParseUint64 ptr value
  | .str => (0, keptString value)
  | .bool => stringParseBool ptr value
  | .listStr => (1, ptr)

/-! ## Options -/

variable {μ : Type} [DecidableEq μ]

/-- `config_parse_single_element` -/
def configParseSingleElement (spec : ConfigSpec μ) (config : μ → Value) (table : TomlTable)
    (elementName : List Char) : Option (Int × (μ → Value)) :=
  let ptr := config spec.member
  let result :=
    match spec.type with
    | .int64 => some (tomlTableParseInt64 ptr table elementName)
    | .ptr => some (tomlTableParsePtr ptr table elementName)
    | .size => some (tomlTableParseSize ptr table elementName)
    | .uint64 => some (tomlTableParseUint64 ptr table elementName)
    | .str => some (tomlTableParseStr ptr table elementName)
    | .bool => some (tomlTableParseBool ptr table elementName)
    | .listStr => tomlTableParseListStr table elementName
  result.map fun (ret, value) => (ret, Function.update config spec.member value)

/-- The option without its trailing spaces -/
def trimTrailing (option : List Char) : List Char := (option.reverse.dropWhile (· = ' ')).reverse

/-- `config_parse_single_override`, where its assertions hold -/
def configParseSingleOverride (specs : List (ConfigSpec μ)) (config : μ → Value) (option value : List Char) :
    Int × (μ → Value) :=
  if option = [] then (1, config)
  else
    match specs.find? (·.name = trimTrailing option) with
    | none => (1, config)
    | some spec =>
        let result := stringParse (config spec.member) (value.dropWhile (· = ' ')) spec.type
        (result.1, Function.update config spec.member result.2)

/-- The body of the loop over the options -/
def overrideOption (specs : List (ConfigSpec μ)) (state : Int × (μ → Value)) (token : List Char) :
    Int × (μ → Value) :=
  let option := token.dropWhile (· = ' ')
  match option.dropWhile (· ≠ '=') with
  | _ :: value =>
      let result := configParseSingleOverride specs state.2 (option.takeWhile (· ≠ '=')) value
      (if result.1 = 0 then state.1 else 1, result.2)
  | [] => if option = [] then state else (1, state.2)

/-- `config_parse_override` -/
def configParseOverride (specs : List (ConfigSpec μ)) (config : μ → Value) (configOverride : List Char) :
    Int × (μ → Value) :=
  (strtok ',' configOverride).foldl (overrideOption specs) (0, config)

/-- A table of options that can be named in an override -/
structure SpecTable (μ : Type) where
  specs : List (ConfigSpec μ)
  nodup : (specs.map ConfigSpec.name).Nodup
  named : ∀ spec ∈ specs, spec.name ≠ [] ∧ ∀ c ∈ spec.name, c ≠ ' ' ∧ c ≠ '=' ∧ c ≠ ','

/-- The members of `rt_config_t` -/
inductive Member where
  | schedQuantumNs
  | schedBatchSize
  | schedCpusPerQueue
  | schedInQueueSize
  | schedImmediateSuccessor
  | shmName
  | shmIsolationLevel
  | shmStart
  | shmSize
  | taskAffinityDefault
  | taskAffinityDefaultPolicy
  | threadAffinityCompatSupport
  | topologyBinding
  | topologyNumaNodes
  | topologyComplexSets
  | topologyPrint
  | debugDumpConfig
  | governorPolicy
  | governorSpins
  | hwcountersVerbose
  | hwcountersBackend
  | hwcountersPapiEvents
  | turboEnabled
  | monitoringEnabled
  | monitoringVerbose
  | instrumentationVersion
  | threadStackSize
  | ovniLevel
  | ovniEvents
  | ovniKernelRingsize
  deriving DecidableEq

/-- `config_spec_list` -/
def configSpecList : List (ConfigSpec Member) :=
  [⟨.uint64, 0, "scheduler.quantum_ns".toList, .schedQuantumNs⟩,
    ⟨.uint64, 0, "scheduler.queue_batch".toList, .schedBatchSize⟩,
    ⟨.uint64, 0, "scheduler.cpus_per_queue".toList, .schedCpusPerQueue⟩,
    ⟨.uint64, 0, "scheduler.in_queue_size".toList, .schedInQueueSize⟩,
    ⟨.bool, 0, "scheduler.immediate_successor".toList, .schedImmediateSuccessor⟩,
    ⟨.str, 0, "shared_memory.name".toList, .shmName⟩,
    ⟨.str, 0, "shared_memory.isolation_level".toList, .shmIsolationLevel⟩,
    ⟨.ptr, 0, "shared_memory.start".toList, .shmStart⟩,
    ⟨.size, 0, "shared_memory.size".toList, .shmSize⟩,
    ⟨.str, 0, "task_affinity.default".toList, .taskAffinityDefault⟩,
    ⟨.str, 0, "task_affinity.default_policy".toList, .taskAffinityDefaultPolicy⟩,
    ⟨.bool, 0, "thread_affinity.compat_support".toList, .threadAffinityCompatSupport⟩,
    ⟨.str, 0, "topology.binding".toList, .topologyBinding⟩,
    ⟨.str, 1, "topology.numa_nodes".toList, .topologyNumaNodes⟩,
    ⟨.str, 1, "topology.complex_sets".toList, .topologyComplexSets⟩,
    ⟨.bool, 0, "topology.print".toList, .topologyPrint⟩,
    ⟨.bool, 0, "debug.dump_config".toList, .debugDumpConfig⟩,
    ⟨.str, 0, "governor.policy".toList, .governorPolicy⟩,
    ⟨.uint64, 0, "governor.spins".toList, .governorSpins⟩,
    ⟨.bool, 0, "hwcounters.verbose".toList, .hwcountersVerbose⟩,
    ⟨.str, 0, "hwcounters.backend".toList, .hwcountersBackend⟩,
    ⟨.listStr, 0, "hwcounters.papi_events".toList, .hwcountersPapiEvents⟩,
    ⟨.bool, 0, "turbo.enabled".toList, .turboEnabled⟩,
    ⟨.bool, 0, "monitoring.enabled".toList, .monitoringEnabled⟩,
    ⟨.bool, 0, "monitoring.verbose".toList, .monitoringVerbose⟩,
    ⟨.str, 0, "instrumentation.version".toList, .instrumentationVersion⟩,
    ⟨.size, 0, "misc.stack_size".toList, .threadStackSize⟩,
    ⟨.uint64, 0, "ovni.level".toList, .ovniLevel⟩,
    ⟨.listStr, 0, "ovni.events".toList, .ovniEvents⟩,
    ⟨.size, 0, "ovni.kernel_ringsize".toList, .ovniKernelRingsize⟩]

theorem configSpecList_named :
    configSpecList.all (fun spec => spec.name ≠ []
      ∧ spec.name.all (fun c => c ≠ ' ' ∧ c ≠ '=' ∧ c ≠ ',') = true) = true := by decide +kernel

/-- No name of the table stands there twice, or has a space, an equals sign
or a comma. -/
def configSpecTable : SpecTable Member where
  specs := configSpecList
  nodup := by decide +kernel
  named spec hspec := by
    have hname := of_decide_eq_true (List.all_eq_true.mp configSpecList_named spec hspec)
    exact ⟨hname.1, fun c hc => of_decide_eq_true (List.all_eq_true.mp hname.2 c hc)⟩

/-! ## The override of one option -/

/-- `name = w`, with spaces around the name and before the value -/
def overrideText (name : List Char) (a b c : Nat) (w : List Char) : List Char :=
  List.replicate a ' ' ++ (name ++ (List.replicate b ' ' ++ '=' :: (List.replicate c ' ' ++ w)))

variable {t : SpecTable μ} {spec : ConfigSpec μ} {config : μ → Value} {name w : List Char} {a b c : Nat}

theorem dropWhile_replicate (w : List Char) (n : Nat) :
    (List.replicate n ' ' ++ w).dropWhile (· = ' ') = w.dropWhile (· = ' ') :=
  List.dropWhile_append_of_pos fun _ hc => decide_eq_true (List.eq_of_mem_replicate hc)

theorem dropWhile_name (hname : name ≠ []) (hchars : ∀ c ∈ name, c ≠ ' ' ∧ c ≠ '=' ∧ c ≠ ',')
    (rest : List Char) : (name ++ rest).dropWhile (· = ' ') = name ++ rest := by
  obtain ⟨c, s, rfl⟩ := List.exists_cons_of_ne_nil hname
  exact List.dropWhile_cons_of_neg (by simpa using (hchars c List.mem_cons_self).1)

/-- Everything in front of the equals sign is the option. -/
theorem split_option (hchars : ∀ c ∈ name, c ≠ ' ' ∧ c ≠ '=' ∧ c ≠ ',') (rest : List Char) :
    (name ++ (List.replicate b ' ' ++ '=' :: rest)).takeWhile (· ≠ '=') = name ++ List.replicate b ' '
      ∧ (name ++ (List.replicate b ' ' ++ '=' :: rest)).dropWhile (· ≠ '=') = '=' :: rest := by
  have hne : ∀ c ∈ name ++ List.replicate b ' ', decide (c ≠ '=') = true := by
    intro c hc
    rcases List.mem_append.mp hc with hc | hc
    · exact decide_eq_true (hchars c hc).2.1
    · rw [List.eq_of_mem_replicate hc]
      decide
  rw [← List.append_assoc]
  constructor
  · rw [List.takeWhile_append_of_pos hne, List.takeWhile_cons_of_neg (by simp), List.append_nil]
  · rw [List.dropWhile_append_of_pos hne, List.dropWhile_cons_of_neg (by simp)]

theorem trimTrailing_name (hchars : ∀ c ∈ name, c ≠ ' ' ∧ c ≠ '=' ∧ c ≠ ',') :
    trimTrailing (name ++ List.replicate b ' ') = name := by
  have hname : name.reverse.dropWhile (· = ' ') = name.reverse := by
    cases hrev : name.reverse with
    | nil => rfl
    | cons c s =>
        have hc : c ∈ name := List.mem_reverse.mp (hrev ▸ List.mem_cons_self)
        exact List.dropWhile_cons_of_neg (by simpa using (hchars c hc).1)
  rw [trimTrailing, List.reverse_append, List.reverse_replicate, dropWhile_replicate, hname,
    List.reverse_reverse]

omit [DecidableEq μ] in
/-- The spec of a name is found. -/
theorem find_spec (hspec : spec ∈ t.specs) : t.specs.find? (·.name = spec.name) = some spec := by
  cases hfind : t.specs.find? (·.name = spec.name) with
  | none => exact absurd rfl (of_decide_eq_false (eq_false_of_ne_true (List.find?_eq_none.mp hfind spec hspec)))
  | some found =>
      have hname : found.name = spec.name := by simpa using List.find?_some hfind
      rw [List.inj_on_of_nodup_map t.nodup (List.mem_of_find?_eq_some hfind) hspec hname]

/-- The override parses the value according to the type of the option. -/
theorem configParseOverride_option (config : μ → Value) (a b c : Nat) (hspec : spec ∈ t.specs) (hw : ',' ∉ w) :
    configParseOverride t.specs config (overrideText spec.name a b c w)
      = (if (stringParse (config spec.member) (w.dropWhile (· = ' ')) spec.type).1 = 0 then 0 else 1,
        Function.update config spec.member
          (stringParse (config spec.member) (w.dropWhile (· = ' ')) spec.type).2) := by
  obtain ⟨hne, hchars⟩ := t.named spec hspec
  have hcomma : ',' ∉ overrideText spec.name a b c w := by
    have hname : ',' ∉ spec.name := fun hin => (hchars ',' hin).2.2 rfl
    simp [overrideText, hname, hw]
  have htok : strtok ',' (overrideText spec.name a b c w) = [overrideText spec.name a b c w] := by
    have hfields := @strtok_intercalate ',' [overrideText spec.name a b c w]
      fun field hfield => by
        obtain rfl := List.mem_singleton.mp hfield
        refine ⟨?_, hcomma⟩
        simp [overrideText]
    simpa [List.intercalate] using hfields
  have hoption : (overrideText spec.name a b c w).dropWhile (· = ' ')
      = spec.name ++ (List.replicate b ' ' ++ '=' :: (List.replicate c ' ' ++ w)) := by
    rw [overrideText, dropWhile_replicate, dropWhile_name hne hchars]
  obtain ⟨htake, hdrop⟩ := split_option (b := b) hchars (List.replicate c ' ' ++ w)
  have hsingle : configParseSingleOverride t.specs config (spec.name ++ List.replicate b ' ')
      (List.replicate c ' ' ++ w)
      = ((stringParse (config spec.member) (w.dropWhile (· = ' ')) spec.type).1,
        Function.update config spec.member
          (stringParse (config spec.member) (w.dropWhile (· = ' ')) spec.type).2) := by
    rw [configParseSingleOverride, if_neg (List.append_ne_nil_of_left_ne_nil hne _),
      trimTrailing_name hchars, find_spec hspec, dropWhile_replicate]
  rw [configParseOverride, htok, List.foldl_cons, List.foldl_nil, overrideOption, hoption, hdrop, htake]
  dsimp only
  rw [hsingle]

/-! ## Numbers -/

/-- An integer as it is written in both places -/
def integerText (v : Int) : List Char :=
  if v < 0 then '-' :: Nat.toDigits 10 v.natAbs else Nat.toDigits 10 v.natAbs

theorem scanNumber_integerText (v : Int) :
    scanNumber (integerText v) = some ⟨decide (v < 0), Nat.toDigits 10 v.natAbs, []⟩ := by
  have hdigits := isNumeral_toDigits v.natAbs
  unfold integerText
  split
  case isTrue h =>
    have : scanNumber (['-'] ++ (Nat.toDigits 10 v.natAbs ++ [])) = _ :=
      scanNumber_signed hdigits stops_nil (Or.inr (Or.inr ⟨rfl, rfl⟩))
    rw [List.append_nil] at this
    rw [decide_eq_true h]
    exact this
  case isFalse h =>
    have := scanNumber_numeral hdigits stops_nil
    rw [List.append_nil] at this
    rw [decide_eq_false h]
    exact this

theorem value_integerText (v : Int) :
    Number.value ⟨decide (v < 0), Nat.toDigits 10 v.natAbs, []⟩ = v := by
  unfold Number.value
  dsimp only
  rw [digitsValue_toDigits]
  by_cases h : v < 0
  · rw [decide_eq_true h, if_pos rfl]
    omega
  · rw [decide_eq_false h, if_neg Bool.false_ne_true]
    omega

theorem isSpace_space : isSpace ' ' = true := by decide

/-- Spaces before a number do not matter. -/
theorem scanNumber_dropSpaces (w : List Char) : scanNumber (w.dropWhile (· = ' ')) = scanNumber w := by
  conv_rhs => rw [← List.takeWhile_append_dropWhile (p := fun c => decide (c = ' ')) (l := w)]
  refine (scanNumber_spaces fun c hc => ?_).symm
  have : c = ' ' := by simpa using List.mem_takeWhile_imp hc
  rw [this, isSpace_space]

/-- The text is an integer, with or without a sign. -/
def IsInteger (w : List Char) : Prop :=
  ∃ sign digits, w = sign ++ digits ∧ (sign = [] ∨ sign = ['+'] ∨ sign = ['-']) ∧ IsNumeral digits

/-- The text begins with a number that the conversion for the type cannot
give back. -/
def OutOfRange : SpecType → List Char → Prop
  | .int64, w => ∃ n, scanNumber w = some n ∧ ¬ InInt64 n.value
  | .uint64, w => ∃ n, scanNumber w = some n ∧ 18446744073709551616 ≤ digitsValue n.digits
  | _, _ => False

theorem strtoll_erange : (strtoll w).erange = true ↔ OutOfRange .int64 w := by
  rw [OutOfRange, strtoll]
  unfold InInt64
  cases scanNumber w with
  | none => simp
  | some n =>
      simp only [Option.some.injEq, exists_eq_left']
      split
      · exact iff_of_true rfl (by omega)
      split
      · exact iff_of_true rfl (by omega)
      · exact iff_of_false Bool.false_ne_true (by omega)

theorem strtoull_erange : (strtoull w).erange = true ↔ OutOfRange .uint64 w := by
  rw [OutOfRange, strtoull]
  cases scanNumber w with
  | none => simp
  | some n =>
      simp only [Option.some.injEq, exists_eq_left']
      split
      case isTrue h => exact iff_of_true rfl h
      case isFalse h => exact iff_of_false Bool.false_ne_true h

theorem strtoll_integerText (v : Int) :
    strtoll (integerText v) =
      if v < -9223372036854775808 then ⟨-9223372036854775808, true, []⟩
      else if 9223372036854775807 < v then ⟨9223372036854775807, true, []⟩
      else ⟨v, false, []⟩ := by
  rw [strtoll, scanNumber_integerText]
  dsimp only
  rw [value_integerText]

theorem strtoull_integerText (v : Int) :
    strtoull (integerText v) =
      if 18446744073709551616 ≤ v.natAbs then ⟨18446744073709551615, true, []⟩
      else ⟨v % 18446744073709551616, false, []⟩ := by
  rw [strtoull, scanNumber_integerText]
  dsimp only
  rw [digitsValue_toDigits, value_integerText]

theorem stringParseInt64_text {ptr : Value} (v : Int) :
    stringParseInt64 ptr (integerText v) = if InInt64 v then (0, .int v) else (1, ptr) := by
  rw [stringParseInt64, strtoll_integerText]
  by_cases hlow : v < -9223372036854775808
  · rw [if_pos hlow, if_pos rfl, if_neg fun h : InInt64 v => Int.not_le.mpr hlow h.1]
  · rw [if_neg hlow]
    by_cases hhigh : 9223372036854775807 < v
    · rw [if_pos hhigh, if_pos rfl, if_neg fun h : InInt64 v => Int.not_le.mpr hhigh h.2]
    · have hin : InInt64 v := ⟨Int.not_lt.mp hlow, Int.not_lt.mp hhigh⟩
      rw [if_neg hhigh, if_neg Bool.false_ne_true, if_pos hin]

/-- A negative number wraps around. -/
theorem stringParseUint64_text {ptr : Value} {v : Int} (hlow : -9223372036854775808 ≤ v)
    (hhigh : v < 18446744073709551616) :
    stringParseUint64 ptr (integerText v) = (0, .int (v % 18446744073709551616)) := by
  have habs : ¬ 18446744073709551616 ≤ v.natAbs := by omega
  rw [stringParseUint64, strtoull_integerText, if_neg habs, if_neg Bool.false_ne_true]

theorem integerText_head (v : Int) : (integerText v).dropWhile (· = ' ') = integerText v := by
  have hdigits := isNumeral_toDigits v.natAbs
  unfold integerText
  split
  · rfl
  · obtain ⟨c, s, heq, hc⟩ := hdigits.exists_cons
    rw [heq]
    refine List.dropWhile_cons_of_neg ?_
    rw [decide_eq_true_eq]
    rintro rfl
    exact absurd hc (by decide)

theorem comma_notMem_integerText (v : Int) : ',' ∉ integerText v := by
  have hdigits : ',' ∉ Nat.toDigits 10 v.natAbs := fun hin =>
    absurd ((isNumeral_toDigits v.natAbs).digits ',' hin) (by decide)
  unfold integerText
  split
  · simp [hdigits]
  · exact hdigits

/-! ## File and override -/

/-- The override is accepted if the value of the file is, and then stores
the same. -/
def Agrees (t : SpecTable μ) (spec : ConfigSpec μ) (config : μ → Value) (table : TomlTable)
    (elementName text : List Char) : Prop :=
  ∃ parsed, configParseSingleElement spec config table elementName = some parsed
    ∧ ((configParseOverride t.specs config text).1 = 0 ↔ parsed.1 = 0)
    ∧ (parsed.1 = 0 → (configParseOverride t.specs config text).2 = parsed.2)

/-- The override is rejected, and leaves the options as they are. -/
def Rejects (t : SpecTable μ) (config : μ → Value) (text : List Char) : Prop :=
  (configParseOverride t.specs config text).1 ≠ 0 ∧ (configParseOverride t.specs config text).2 = config

theorem agrees_int64 (hspec : spec ∈ t.specs) (htype : spec.type = .int64) {table : TomlTable}
    {elementName : List Char} {v : Int} (htable : table elementName = some (.int v)) :
    Agrees t spec config table elementName (overrideText spec.name a b c (integerText v)) := by
  have hover := configParseOverride_option config a b c hspec
    (comma_notMem_integerText v)
  rw [integerText_head, htype, stringParse, stringParseInt64_text] at hover
  have hparsed : configParseSingleElement spec config table elementName
      = some (if InInt64 v then (0, Function.update config spec.member (.int v)) else (1, config)) := by
    unfold configParseSingleElement
    rw [htype]
    dsimp only
    rw [tomlTableParseInt64, tomlIntIn, htable]
    dsimp only
    by_cases h : InInt64 v
    · rw [if_pos h, if_pos h]
      rfl
    · rw [if_neg h, if_neg h, Option.map_some, Function.update_eq_self]
  refine ⟨_, hparsed, ?_⟩
  rw [hover]
  by_cases h : InInt64 v
  · rw [if_pos h, if_pos h]
    exact ⟨Iff.rfl, fun _ => rfl⟩
  · rw [if_neg h, if_neg h]
    exact ⟨Iff.rfl, fun hzero => absurd hzero Int.one_ne_zero⟩

theorem agrees_uint64 (hspec : spec ∈ t.specs) (htype : spec.type = .uint64) {table : TomlTable}
    {elementName : List Char} {v : Int} (hlow : -9223372036854775808 ≤ v) (hhigh : v < 18446744073709551616)
    (htable : table elementName = some (.int v)) :
    Agrees t spec config table elementName (overrideText spec.name a b c (integerText v))
      ↔ 0 ≤ v ∧ v < 9223372036854775808 := by
  have hover := configParseOverride_option config a b c hspec
    (comma_notMem_integerText v)
  rw [integerText_head, htype, stringParse, stringParseUint64_text hlow hhigh, if_pos rfl] at hover
  have hparsed : configParseSingleElement spec config table elementName
      = some (if 0 ≤ v ∧ v < 9223372036854775808 then (0, Function.update config spec.member (.int v))
        else (1, config)) := by
    unfold configParseSingleElement
    rw [htype]
    dsimp only
    rw [tomlTableParseUint64, tomlIntIn, htable]
    dsimp only
    by_cases hin : InInt64 v
    · rw [if_pos hin]
      dsimp only
      by_cases hpos : 0 ≤ v
      · rw [if_pos hpos, if_pos ⟨hpos, Int.lt_add_one_of_le hin.2⟩]
        rfl
      · rw [if_neg hpos, if_neg fun h => hpos h.1, Option.map_some, Function.update_eq_self]
    · have hnot : ¬ (0 ≤ v ∧ v < 9223372036854775808) := fun h => hin ⟨hlow, Int.le_of_lt_add_one h.2⟩
      rw [if_neg hin, if_neg hnot, Option.map_some, Function.update_eq_self]
  rw [Agrees, hparsed, hover]
  constructor
  · rintro ⟨parsed, hres, hret, -⟩
    by_contra hnot
    rw [if_neg hnot] at hres
    obtain rfl := Option.some.inj hres
    exact absurd (hret.mp rfl) Int.one_ne_zero
  · intro h
    refine ⟨_, rfl, ?_⟩
    rw [if_pos h, Int.emod_eq_of_lt h.1 hhigh]
    exact ⟨Iff.rfl, fun _ => rfl⟩

theorem outOfRange_dropSpaces (type : SpecType) (w : List Char) :
    OutOfRange type (w.dropWhile (· = ' ')) ↔ OutOfRange type w := by
  cases type <;> simp only [OutOfRange, scanNumber_dropSpaces]

theorem rejects_iff (hspec : spec ∈ t.specs) (htype : spec.type = .int64 ∨ spec.type = .uint64)
    (hw : ',' ∉ w) :
    Rejects t config (overrideText spec.name a b c w) ↔ OutOfRange spec.type w := by
  have hover := configParseOverride_option config a b c hspec hw
  have hparse : ∀ type, type = .int64 ∨ type = .uint64 → ∀ ptr,
      (OutOfRange type (w.dropWhile (· = ' ')) → stringParse ptr (w.dropWhile (· = ' ')) type = (1, ptr))
      ∧ ((stringParse ptr (w.dropWhile (· = ' ')) type).1 ≠ 0 → OutOfRange type (w.dropWhile (· = ' '))) := by
    rintro type (rfl | rfl) ptr
    · rw [stringParse, stringParseInt64, ← strtoll_erange]
      exact ⟨fun h => if_pos h, fun h => by_contra fun herange => h (by rw [if_neg herange])⟩
    · rw [stringParse, stringParseUint64, ← strtoull_erange]
      exact ⟨fun h => if_pos h, fun h => by_contra fun herange => h (by rw [if_neg herange])⟩
  obtain ⟨hout, hin⟩ := hparse spec.type htype (config spec.member)
  rw [← outOfRange_dropSpaces, Rejects, hover]
  constructor
  · rintro ⟨hret, -⟩
    refine hin fun hzero => hret ?_
    rw [if_pos hzero]
  · intro h
    rw [hout h, Function.update_eq_self]
    exact ⟨Int.one_ne_zero, rfl⟩

/-- A number from the file and from an override agree if the option is
signed, or the number is one that the file can hold and not negative; a text
that is no integer is only rejected if it begins with a number that is out
of range. -/
theorem file_and_override (hspec : spec ∈ t.specs) (htype : spec.type = .int64 ∨ spec.type = .uint64)
    (config : μ → Value) :
    (∀ (v : Int) (a b c : Nat) (table : TomlTable) (elementName : List Char),
      -9223372036854775808 ≤ v → v < 18446744073709551616 → table elementName = some (.int v) →
      (Agrees t spec config table elementName (overrideText spec.name a b c (integerText v))
        ↔ spec.type = .int64 ∨ 0 ≤ v ∧ v < 9223372036854775808))
    ∧ ∀ (w : List Char) (a b c : Nat), ',' ∉ w → ¬ IsInteger (w.dropWhile (· = ' ')) →
      (Rejects t config (overrideText spec.name a b c w) ↔ OutOfRange spec.type w) := by
  refine ⟨fun v a b c table elementName hlow hhigh htable => ?_,
    fun w a b c hw _ => rejects_iff hspec htype hw⟩
  rcases htype with htype | htype
  · exact iff_of_true (agrees_int64 hspec htype htable) (Or.inl htype)
  · rw [agrees_uint64 hspec htype hlow hhigh htable]
    exact (or_iff_right (by rw [htype]; decide)).symm

def spinsSpec : ConfigSpec Member := ⟨.uint64, 0, "governor.spins".toList, .governorSpins⟩

theorem spinsSpec_mem : spinsSpec ∈ configSpecTable.specs :=
  List.mem_of_getElem? (show configSpecList[18]? = some spinsSpec from rfl)

/-- `governor.spins = -1` is accepted from an override, and rejected from
the file. -/
theorem override_wraps :
    (configParseOverride configSpecTable.specs (fun _ => .int 0)
        (overrideText spinsSpec.name 0 1 1 (integerText (-1)))).1 = 0
      ∧ ¬ Agrees configSpecTable spinsSpec (fun _ => .int 0) (fun _ => some (.int (-1))) "spins".toList
        (overrideText spinsSpec.name 0 1 1 (integerText (-1))) := by
  constructor
  · rw [configParseOverride_option _ _ _ _ spinsSpec_mem (comma_notMem_integerText (-1)), integerText_head]
    have hparse : (stringParse (.int 0) (integerText (-1)) spinsSpec.type).1 = 0 := by decide
    dsimp only
    rw [if_pos hparse]
  · rw [agrees_uint64 spinsSpec_mem rfl (by decide) (by decide) rfl]
    decide

/-- `governor.spins = 20000`, and `governor.spins = 18446744073709551616x` -/
theorem file_and_override_spins :
    Agrees configSpecTable spinsSpec (fun _ => .int 0) (fun _ => some (.int 20000)) "spins".toList
        (overrideText spinsSpec.name 0 1 1 (integerText 20000))
      ∧ Rejects configSpecTable (fun _ => .int 0)
        (overrideText spinsSpec.name 0 1 1 (Nat.toDigits 10 18446744073709551616 ++ ['x'])) := by
  obtain ⟨hagrees, hrejects⟩ := file_and_override spinsSpec_mem (Or.inr rfl) (fun _ => Value.int 0)
  refine ⟨(hagrees 20000 0 1 1 _ _ (by decide) (by decide) rfl).mpr (Or.inr (by decide)), ?_⟩
  refine (hrejects _ 0 1 1 (by decide) ?_).mpr ⟨_, rfl, by decide⟩
  rintro ⟨sign, digits, heq, hsign, hdigits⟩
  have hx : 'x' ∈ sign ++ digits := by
    rw [← heq]
    decide
  rcases List.mem_append.mp hx with hx | hx
  · rcases hsign with rfl | rfl | rfl <;> exact absurd hx (by decide)
  · exact absurd (hdigits.digits 'x' hx) (by decide)

end Config

end Nosv
