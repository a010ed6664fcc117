import Nosv.ConfigOverride
import Nosv.Lib.Blocks

/-!
# The memory of the configuration

The options as the words of `rt_config_t` and the blocks that these point
to. The table of options leads both the file and the override to the memory
of a member, and what stands there is what the type and the dimensions say
only if the parse functions agree on both.

A function gives nothing where it would read, write or free memory that is
not there. Memory from `malloc` that has not been written yet holds `junk`,
and `malloc` does not fail.

The library for TOML finds keys with a single value and keys with an array;
a key with a table is not among them.
-/

namespace Nosv

open CString Blocks

namespace ConfigMemory

open Config

/-- A word of memory -/
inductive Word where
  | number (i : Int)
  | pointer (p : Option Addr)
  deriving DecidableEq

/-- The memory of a member or of an item: its first word and, of a
`string_list_t` or a `generic_array_t`, the count behind it -/
structure Cell where
  word : Word
  count : Nat
  deriving DecidableEq

/-- What a block holds -/
inductive Block where
  | text (s : List Char)
  | cells (items : List Cell)
  deriving DecidableEq

/-- `rt_config_t` and the memory behind it -/
structure State (μ : Type) where
  config : μ → Cell
  memory : Memory Block

/-- The return value of a parse function, what is at its `ptr` and the
memory after it -/
abbrev Parsed := Option (Int × Cell × Memory Block)

structure TomlDoc where
  keys : TomlTable
  tables : List Char → Option TomlTable

section Model

variable (al : Allocator) (junk : Cell)

/-! ## Words and items -/

/-- `if (*ptr) free(*ptr)` -/
def freeWord : Word → Memory Block → Option (Memory Block)
  | .pointer none, m => some m
  | .pointer (some a), m => free a m
  | .number _, _ => none

def getItem (a : Addr) (i : Nat) (m : Memory Block) : Option Cell :=
  match m.lookup a with
  | some (.cells items) => items[i]?
  | _ => none

def setItem (a : Addr) (i : Nat) (item : Cell) (m : Memory Block) : Option (Memory Block) :=
  match m.lookup a with
  | some (.cells items) => if i < items.length then write a (.cells (items.set i item)) m else none
  | _ => none

/-- The loop over the items of a block, which ends at the first error -/
def fillItems {γ : Type} (parse : γ → Cell → Memory Block → Parsed) (a : Addr) :
    List γ → Nat → Memory Block → Option (Int × Memory Block)
  | [], _, m => some (0, m)
  | v :: vs, i, m => do
      let item ← getItem a i m
      let (ret, item, m) ← parse v item m
      let m ← setItem a i item m
      if ret = 0 then fillItems parse a vs (i + 1) m else some (1, m)

/-! ## Values from TOML -/

/-- The item of an array, as the library reads it -/
def itemTable (v : TomlValue) : TomlTable := fun _ => some v

/-- `toml_table_parse_*` and `toml_array_parse_*` of the types without
memory of their own -/
def tomlParseNumber (type : SpecType) (table : TomlTable) (name : List Char) : Int × Value :=
  match type with
  | .int64 => tomlTableParseInt64 (.int 0) table name
  | .ptr => tomlTableParsePtr (.int 0) table name
  | .size => tomlTableParseSize (.int 0) table name
  | .uint64 => tomlTableParseUint64 (.int 0) table name
  | .bool => tomlTableParseBool (.int 0) table name
  | .str | .listStr => (1, .int 0)

/-- A number is stored if it could be parsed. -/
def storeNumber (parsed : Int × Value) (cell : Cell) : Int × Cell :=
  match parsed with
  | (0, .int i) => (0, { cell with word := .number i })
  | (ret, _) => (ret, cell)

/-- `__toml_parse_str`; the string of the datum is a block. -/
def tomlParseStr (datum : Option (List Char)) (cell : Cell) (m : Memory Block) : Parsed :=
  match datum with
  | none => some (1, cell, m)
  | some s => do
      let (a, m) := alloc al (.text s) m
      let m ← freeWord cell.word m
      if s = [] then
        let m ← free a m
        some (0, { cell with word := .pointer none }, m)
      else some (0, { cell with word := .pointer (some a) }, m)

/-- The items of the list before it is parsed -/
def freeStrings (cell : Cell) (m : Memory Block) : Option (Memory Block) :=
  match cell.word with
  | .pointer none => some m
  | .pointer (some a) =>
      match m.lookup a with
      | some (.cells items) =>
          if cell.count ≤ items.length then do
            let m ← (items.take cell.count).foldlM (fun m item => freeWord item.word m) m
            free a m
          else none
      | _ => none
  | .number _ => none

/-- The body of the loop of `toml_table_parse_list_str` -/
def tomlStringDup (v : TomlValue) (cell : Cell) (m : Memory Block) : Parsed :=
  match tomlStringIn (itemTable v) [] with
  | none => some (1, cell, m)
  | some s => do
      let (datum, m) := alloc al (.text s) m
      let (copy, m) := alloc al (.text s) m
      let m ← free datum m
      some (0, { cell with word := .pointer (some copy) }, m)

/-- `toml_table_parse_list_str`; without an array, a null pointer is used. -/
def tomlTableParseListStr (table : TomlTable) (name : List Char) (cell : Cell) (m : Memory Block) :
    Parsed := do
  let m ← freeStrings cell m
  match table name with
  | some (.array items) =>
      let (a, m) := alloc al (.cells (List.replicate items.length junk)) m
      let (ret, m) ← fillItems (tomlStringDup al) a items 0 m
      some (ret, ⟨.pointer (some a), items.length⟩, m)
  | _ => none

/-! ## Arrays -/

/-- What `calloc` leaves in an item -/
def zeroed : SpecType → Cell
  | .str | .listStr => ⟨.pointer none, 0⟩
  | _ => ⟨.number 0, 0⟩

/-- The `switch` of `config_parse_array_internal` -/
def parseItem (type : SpecType) (v : TomlValue) (cell : Cell) (m : Memory Block) : Parsed :=
  match type with
  | .str => tomlParseStr al (tomlStringIn (itemTable v) []) cell m
  | .listStr => some (1, cell, m)
  | _ =>
      let (ret, cell) := storeNumber (tomlParseNumber type (itemTable v) []) cell
      some (ret, cell, m)

/-- `config_parse_array_internal`, which is called with dimensions left -/
def configParseArrayInternal (type : SpecType) : Nat → TomlValue → Cell → Memory Block → Parsed
  | 0, _, _, _ => none
  | dimensionsLeft + 1, .array items, _, m => do
      let first := if dimensionsLeft = 0 then zeroed type else junk
      let (a, m) := alloc al (.cells (List.replicate items.length first)) m
      let (ret, m) ← fillItems
        (if dimensionsLeft = 0 then parseItem al type else configParseArrayInternal type dimensionsLeft)
        a items 0 m
      some (ret, ⟨.pointer (some a), items.length⟩, m)
  | _ + 1, _, cell, m => some (1, cell, m)

/-! ## The file -/

variable {μ : Type} [DecidableEq μ]

/-- `config_parse_single_element` -/
def configParseSingleElement (spec : ConfigSpec μ) (cell : Cell) (m : Memory Block) (table : TomlTable)
    (elementName : List Char) : Parsed :=
  match spec.type with
  | .str => tomlParseStr al (tomlStringIn table elementName) cell m
  | .listStr => tomlTableParseListStr al junk table elementName cell m
  | type =>
      let (ret, cell) := storeNumber (tomlParseNumber type table elementName) cell
      some (ret, cell, m)

/-- The choice between `config_parse_array` and `config_parse_single_element` -/
def configParseElement (spec : ConfigSpec μ) (v : TomlValue) (cell : Cell) (m : Memory Block)
    (table : TomlTable) (elementName : List Char) : Parsed :=
  if spec.dimensions = 0 then configParseSingleElement al junk spec cell m table elementName
  else configParseArrayInternal al junk spec.type spec.dimensions v cell m

/-- What was parsed is in the memory of the member. -/
def State.store (st : State μ) (member : μ) (parsed : Parsed) : Option (Int × State μ) :=
  parsed.map fun (ret, cell, m) => (ret, ⟨Function.update st.config member cell, m⟩)

/-- The sections of a name are all looked up in the root table. -/
def TomlDoc.currTable (doc : TomlDoc) (sections : List (List Char)) : Option TomlTable :=
  sections.foldlM (fun _ name => doc.tables name) doc.keys

/-- `config_parse_single_spec` -/
def configParseSingleSpec (doc : TomlDoc) (spec : ConfigSpec μ) (st : State μ) : Option (Int × State μ) :=
  let tokens := spec.name.splitOn '.'
  match doc.currTable tokens.dropLast with
  | none => some (0, st)
  | some table =>
      match table (tokens.getLastD []) with
      | none => some (0, st)
      | some v =>
          st.store spec.member
            (configParseElement al junk spec v (st.config spec.member) st.memory table (tokens.getLastD []))

/-- `config_populate` -/
def configPopulate (doc : TomlDoc) : List (ConfigSpec μ) → State μ → Option (Int × State μ)
  | [], st => some (0, st)
  | spec :: specs, st => do
      let (ret, st) ← configParseSingleSpec al junk doc spec st
      let (fail, st) ← configPopulate doc specs st
      some (ret + fail, st)

/-! ## The override -/

/-- `string_parse_str` -/
def stringParseStr (cell : Cell) (value : List Char) (m : Memory Block) : Parsed := do
  let m ← freeWord cell.word m
  if value = [] then some (0, { cell with word := .pointer none }, m)
  else
    let (a, m) := alloc al (.text value) m
    some (0, { cell with word := .pointer (some a) }, m)

/-- The `switch` of `config_parse_single_override` -/
def parseValue (type : SpecType) (cell : Cell) (value : List Char) (m : Memory Block) : Parsed :=
  match type with
  | .str => stringParseStr al cell value m
  | .listStr => some (1, cell, m)
  | _ =>
      let (ret, cell) := storeNumber (stringParse (.int 0) value type) cell
      some (ret, cell, m)

/-- `config_parse_single_override`, where its assertions hold -/
def configParseSingleOverride (specs : List (ConfigSpec μ)) (st : State μ) (option value : List Char) :
    Option (Int × State μ) :=
  if option = [] then some (1, st)
  else
    match specs.find? (·.name = trimTrailing option) with
    | none => some (1, st)
    | some spec =>
        st.store spec.member
          (parseValue al spec.type (st.config spec.member) (value.dropWhile (· = ' ')) st.memory)

/-- The body of the loop over the options -/
def overrideOption (specs : List (ConfigSpec μ)) (token : List Char) (st : State μ) :
    Option (Int × State μ) :=
  let option := token.dropWhile (· = ' ')
  match option.dropWhile (· ≠ '=') with
  | _ :: value => configParseSingleOverride al specs st (option.takeWhile (· ≠ '=')) value
  | [] => if option = [] then some (0, st) else some (1, st)

/-- The loop over the options -/
def overrideOptions (specs : List (ConfigSpec μ)) : List (List Char) → State μ → Option (Int × State μ)
  | [], st => some (0, st)
  | token :: tokens, st => do
      let (ret, st) ← overrideOption al specs token st
      let (fail, st) ← overrideOptions specs tokens st
      some (if ret = 0 then fail else 1, st)

/-- `config_parse_override` -/
def configParseOverride (specs : List (ConfigSpec μ)) (configOverride : List Char) (st : State μ) :
    Option (Int × State μ) :=
  overrideOptions al specs (strtok ',' configOverride) st

end Model

/-! ## The defaults -/

section Defaults

variable (al : Allocator) (junk : Cell)

/-- The numbers of `config_init`, and the zeros that are there before it -/
def defaultCell : Member → Cell
  | .schedBatchSize => ⟨.number 64, 0⟩
  | .schedQuantumNs => ⟨.number 20000000, 0⟩
  | .schedCpusPerQueue => ⟨.number 1, 0⟩
  | .schedInQueueSize => ⟨.number 256, 0⟩
  | .schedImmediateSuccessor => ⟨.number 1, 0⟩
  | .shmSize => ⟨.number 2147483648, 0⟩
  | .shmStart => ⟨.number 35184372088832, 0⟩
  | .governorSpins => ⟨.number 10000, 0⟩
  | .threadAffinityCompatSupport => ⟨.number 1, 0⟩
  | .topologyPrint => ⟨.number 0, 0⟩
  | .debugDumpConfig => ⟨.number 0, 0⟩
  | .hwcountersVerbose => ⟨.number 0, 0⟩
  | .turboEnabled => ⟨.number 0, 0⟩
  | .monitoringEnabled => ⟨.number 0, 0⟩
  | .monitoringVerbose => ⟨.number 0, 0⟩
  | .threadStackSize => ⟨.number 8388608, 0⟩
  | .ovniLevel => ⟨.number 2, 0⟩
  | .ovniKernelRingsize => ⟨.number 4194304, 0⟩
  | _ => ⟨.pointer none, 0⟩

/-- The options that `config_init` sets with `strdup` before the events -/
def defaultStrings : List (Member × List Char) :=
  [(.shmName, "nosv".toList),
    (.shmIsolationLevel, "user".toList),
    (.governorPolicy, "hybrid".toList),
    (.taskAffinityDefault, "all".toList),
    (.taskAffinityDefaultPolicy, "strict".toList),
    (.topologyBinding, "inherit".toList),
    (.hwcountersBackend, "none".toList)]

/-- `config->member = strdup(s)` -/
def setString {μ : Type} [DecidableEq μ] (st : State μ) (default : μ × List Char) : State μ :=
  let (a, m) := alloc al (.text default.2) st.memory
  ⟨Function.update st.config default.1 ⟨.pointer (some a), 0⟩, m⟩

def defaultEvents : List (List Char) := ["PAPI_TOT_INS".toList, "PAPI_TOT_CYC".toList]

/-- The `malloc` of one event and its `sprintf` -/
def setEvent (s : List Char) (cell : Cell) (m : Memory Block) : Parsed :=
  let (a, m) := alloc al (.text s) m
  some (0, { cell with word := .pointer (some a) }, m)

/-- `config_init` -/
def configInit (m : Memory Block) : Option (State Member) := do
  let st := defaultStrings.foldl (setString al) ⟨defaultCell, m⟩
  let (a, m) := alloc al (.cells (List.replicate defaultEvents.length junk)) st.memory
  let (_, m) ← fillItems (setEvent al) a defaultEvents 0 m
  let st : State Member :=
    ⟨Function.update st.config .hwcountersPapiEvents ⟨.pointer (some a), defaultEvents.length⟩, m⟩
  some (setString al st (.instrumentationVersion, "none".toList))

/-- The part of `config_parse` that fills in the options; with an error the
process is aborted. -/
def configParse (m : Memory Block) (doc : TomlDoc) (configOverride : List Char) :
    Option (Int × State Member) := do
  let st ← configInit al junk m
  let (err, st) ← configPopulate al junk doc configSpecList st
  if err ≠ 0 then some (err, st) else configParseOverride al configSpecList configOverride st

end Defaults

end ConfigMemory

end Nosv
