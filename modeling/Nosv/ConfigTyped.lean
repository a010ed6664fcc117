import Nosv.ConfigShape

/-!
# Well typed configurations

Every option keeps its declared shape through the file and the override,
and no two options share a block, as long as a list of strings stands as an
array in the file and no array is named in an override.
-/

namespace Nosv

open CString Blocks

namespace ConfigMemory

open Config

variable {al : Allocator} {junk : Cell} {m m' : Memory Block} {cell : Cell} {own' : List Addr}
  {μ : Type} [DecidableEq μ] {specs : List (ConfigSpec μ)} {spec : ConfigSpec μ} {st : State μ}
  {own : μ → List Addr} {doc : TomlDoc}

/-! ## All options at once -/

/-- Each option has its declared shape, and no block has two owners. -/
def WellTyped (specs : List (ConfigSpec μ)) (st : State μ) : Prop :=
  ∃ own : μ → List Addr, Owners st.memory own
    ∧ ∀ spec ∈ specs, HasShape st.memory spec.type spec.dimensions (st.config spec.member) (own spec.member)

/-- Something holds of each option and the blocks it owns. -/
def Each (specs : List (ConfigSpec μ)) (Q : ConfigSpec μ → Memory Block → Cell → List Addr → Prop)
    (st : State μ) (own : μ → List Addr) : Prop :=
  Owners st.memory own ∧ ∀ spec ∈ specs, Q spec st.memory (st.config spec.member) (own spec.member)

variable {Q Q' : ConfigSpec μ → Memory Block → Cell → List Addr → Prop}

/-- It depends on the blocks of the option only. -/
def Local (Q : ConfigSpec μ → Memory Block → Cell → List Addr → Prop) : Prop :=
  ∀ spec m m' cell own, Q spec m cell own → Same m m' own → Q spec m' cell own

/-- One option acts on its blocks. -/
theorem Each.update (h : Each specs Q st own) (hlocal : Local Q) (hnodup : (specs.map (·.member)).Nodup)
    (hspec : spec ∈ specs) (hframe : Framed st.memory (own spec.member) m' own')
    (hQ : Q' spec m' cell own')
    (hother : ∀ other ∈ specs, other ≠ spec → ∀ m c o, Q other m c o → Q' other m c o) :
    Each specs Q' ⟨Function.update st.config spec.member cell, m'⟩ (Function.update own spec.member own') := by
  refine ⟨h.1.update hframe, fun other hin => ?_⟩
  dsimp only
  by_cases heq : other = spec
  · rw [heq, Function.update_self, Function.update_self]
    exact hQ
  · have hne : other.member ≠ spec.member := fun hm => heq (List.inj_on_of_nodup_map hnodup hin hspec hm)
    rw [Function.update_of_ne hne, Function.update_of_ne hne]
    exact hother other hin heq _ _ _ (hlocal _ _ _ _ _ (h.2 other hin) (h.1.kept hframe hne))

/-! ## The file -/

/-- What the file has for a name -/
def TomlDoc.value (doc : TomlDoc) (name : List Char) : Option TomlValue :=
  (doc.currTable (name.splitOn '.').dropLast).bind fun table => table ((name.splitOn '.').getLastD [])

/-- The option is not in the file, or with a value that fits. -/
def KeyFits (doc : TomlDoc) (spec : ConfigSpec μ) : Prop :=
  ∀ v, doc.value spec.name = some v → SpecFits spec v

/-- A list of strings stands as an array in the file. -/
def ListKey (doc : TomlDoc) (spec : ConfigSpec μ) : Prop :=
  spec.type = .listStr → spec.dimensions = 0 → ∀ v, doc.value spec.name = some v → ∃ items, v = .array items

/-- The length of the array that the file has for the option -/
def keyLength (doc : TomlDoc) (spec : ConfigSpec μ) : Nat :=
  match doc.value spec.name with
  | some (.array items) => items.length
  | _ => 0

theorem configParseSingleSpec_none (h : doc.value spec.name = none) :
    configParseSingleSpec al junk doc spec st = some (0, st) := by
  unfold TomlDoc.value at h
  unfold configParseSingleSpec
  dsimp only
  cases htable : doc.currTable (spec.name.splitOn '.').dropLast with
  | none => rfl
  | some table =>
      rw [htable, Option.bind_some] at h
      dsimp only
      rw [h]

theorem configParseSingleSpec_some {v : TomlValue} (h : doc.value spec.name = some v) :
    ∃ table name, table name = some v ∧ configParseSingleSpec al junk doc spec st
      = st.store spec.member
        (configParseElement al junk spec v (st.config spec.member) st.memory table name) := by
  unfold TomlDoc.value at h
  unfold configParseSingleSpec
  dsimp only
  cases htable : doc.currTable (spec.name.splitOn '.').dropLast with
  | none =>
      rw [htable] at h
      nomatch h
  | some table =>
      rw [htable, Option.bind_some] at h
      refine ⟨table, _, h, ?_⟩
      dsimp only
      rw [h]

theorem arrayLength_count {type : SpecType} {d : Nat} {items : List TomlValue} {ret : Int} {cell cell' : Cell}
    (h : configParseArrayInternal al junk type (d + 1) (.array items) cell m = some (ret, cell', m')) :
    cell'.count = items.length := by
  rw [configParseArrayInternal] at h
  dsimp only at h
  cases hfill : fillItems (if d = 0 then parseItem al type else configParseArrayInternal al junk type d)
      (alloc al (Block.cells (List.replicate items.length (if d = 0 then zeroed type else junk))) m).1 items 0
      (alloc al (Block.cells (List.replicate items.length (if d = 0 then zeroed type else junk))) m).2 with
  | none =>
      rw [hfill] at h
      nomatch h
  | some p =>
      rw [hfill, Option.bind_eq_bind, Option.bind_some] at h
      have hcell := (Prod.mk.inj (Prod.mk.inj (Option.some.inj h)).2).1
      rw [← hcell]

/-- An option whose turn comes later has the shape of its default, and one
that has been read the shape of its value. -/
def Loaded (doc : TomlDoc) (todo : List (ConfigSpec μ)) (spec : ConfigSpec μ) (m : Memory Block)
    (cell : Cell) (own : List Addr) : Prop :=
  (spec ∈ todo ∨ KeyFits doc spec → HasShape m spec.type spec.dimensions cell own)
    ∧ (0 < spec.dimensions → (spec ∈ todo → cell.count = 0)
      ∧ (spec ∉ todo → KeyFits doc spec → cell.count = keyLength doc spec))

omit [DecidableEq μ] in
theorem loaded_local (todo : List (ConfigSpec μ)) : Local (Loaded doc todo) :=
  fun _ _ _ _ _ h hsame => ⟨fun hin => (h.1 hin).same hsame, h.2⟩

omit [DecidableEq μ] in
theorem Loaded.tail {other : ConfigSpec μ} {todo : List (ConfigSpec μ)} {o : List Addr} (hne : other ≠ spec)
    (h : Loaded doc (spec :: todo) other m cell o) : Loaded doc todo other m cell o := by
  have hiff : other ∈ spec :: todo ↔ other ∈ todo := by
    rw [List.mem_cons, or_iff_right hne]
  rw [Loaded, hiff] at h
  exact h

theorem configParseSingleSpec_parses {todo : List (ConfigSpec μ)} (hnodup : (specs.map (·.member)).Nodup)
    (hspec : spec ∈ specs) (htodo : spec ∉ todo) (hlist : ListKey doc spec)
    (h : Each specs (Loaded doc (spec :: todo)) st own) :
    ∃ ret st' own', configParseSingleSpec al junk doc spec st = some (ret, st') ∧ 0 ≤ ret
      ∧ (ret = 0 ↔ KeyFits doc spec) ∧ Each specs (Loaded doc todo) st' own' := by
  have hother : ∀ other ∈ specs, other ≠ spec → ∀ m c o,
      Loaded doc (spec :: todo) other m c o → Loaded doc todo other m c o :=
    fun _ _ hne _ _ _ hloaded => hloaded.tail hne
  obtain ⟨hshape, hcount⟩ := h.2 spec hspec
  have hshape := hshape (Or.inl List.mem_cons_self)
  cases hvalue : doc.value spec.name with
  | none =>
      have hfits : KeyFits doc spec := fun v hv => by
        rw [hvalue] at hv
        nomatch hv
      refine ⟨0, st, own, configParseSingleSpec_none hvalue, Int.le_refl 0, iff_of_true rfl hfits, h.1,
        fun other hin => ?_⟩
      by_cases heq : other = spec
      · rw [heq]
        refine ⟨fun _ => hshape, fun hdim => ⟨fun hin => absurd hin htodo, fun _ _ => ?_⟩⟩
        rw [(hcount hdim).1 List.mem_cons_self, keyLength, hvalue]
      · exact hother other hin heq _ _ _ (h.2 other hin)
  | some v =>
      obtain ⟨table, name, htable, hres⟩ := configParseSingleSpec_some hvalue
      obtain ⟨ret, cell, m', own', hparsed, hret, hfits, hframe, hP⟩ :=
        configParseElement_parses htable
          (fun hdim htype => hlist htype hdim v hvalue) hshape (h.1.owns spec.member)
      have hkey : KeyFits doc spec ↔ SpecFits spec v := by
        refine ⟨fun hfits => hfits v hvalue, fun hfits w hw => ?_⟩
        obtain rfl := Option.some.inj (hvalue.symm.trans hw)
        exact hfits
      refine ⟨ret, ⟨Function.update st.config spec.member cell, m'⟩, _, ?_, hret, hfits.trans hkey.symm,
        h.update (loaded_local _) hnodup hspec hframe ⟨fun hin => ?_, fun hdim => ⟨fun hin => absurd hin htodo,
          fun _ hkeyFits => ?_⟩⟩ hother⟩
      · rw [hres, State.store, hparsed]
        rfl
      · exact hP (hkey.mp (hin.resolve_left htodo))
      · -- an array that fits stands as one in the file
        have hfits := hkey.mp hkeyFits
        rw [SpecFits, if_neg fun hand => Nat.ne_of_gt hdim hand.1] at hfits
        rw [configParseElement, if_neg (Nat.ne_of_gt hdim)] at hparsed
        obtain ⟨d, hd⟩ := Nat.exists_eq_succ_of_ne_zero (Nat.ne_of_gt hdim)
        rw [hd] at hfits hparsed
        cases v with
        | array items =>
            rw [arrayLength_count hparsed, keyLength, hvalue]
        | int i | string s | bool b | other => exact absurd hfits id

theorem configPopulate_parses (hnodup : (specs.map (·.member)).Nodup) (todo : List (ConfigSpec μ)) :
    ∀ {st : State μ} {own : μ → List Addr}, todo ⊆ specs → todo.Nodup →
      (∀ spec ∈ todo, ListKey doc spec) → Each specs (Loaded doc todo) st own →
      ∃ fail st' own', configPopulate al junk doc todo st = some (fail, st') ∧ 0 ≤ fail
        ∧ (fail = 0 ↔ ∀ spec ∈ todo, KeyFits doc spec) ∧ Each specs (Loaded doc []) st' own' := by
  induction todo with
  | nil =>
      intro st own _ _ _ h
      exact ⟨0, st, own, rfl, Int.le_refl 0, iff_of_true rfl fun spec hin => absurd hin List.not_mem_nil, h⟩
  | cons spec todo ih =>
      intro st own hsub htodo hlist h
      obtain ⟨hspec, hrest⟩ := List.cons_subset.mp hsub
      obtain ⟨hnot, htodo⟩ := List.nodup_cons.mp htodo
      obtain ⟨ret, st₁, own₁, hres, hret, hfits, heach⟩ :=
        configParseSingleSpec_parses hnodup hspec hnot
          (hlist spec List.mem_cons_self) h
      obtain ⟨fail, st', own', hres', hfail, hfits', heach'⟩ :=
        ih hrest htodo (fun other hin => hlist other (List.mem_cons_of_mem spec hin)) heach
      refine ⟨ret + fail, st', own', ?_, Int.add_nonneg hret hfail, ?_, heach'⟩
      · rw [configPopulate, hres, Option.bind_eq_bind, Option.bind_some]
        dsimp only
        rw [hres']
        rfl
      · rw [List.forall_mem_cons, ← hfits, ← hfits']
        omega

/-- A list of strings without an array is a null pointer. -/
theorem configPopulate_crash (hspec : spec ∈ specs) (hlist : ¬ ListKey doc spec) :
    configPopulate al junk doc specs st = none := by
  induction specs generalizing st with
  | nil => exact absurd hspec List.not_mem_nil
  | cons other specs ih =>
      rw [configPopulate]
      rcases List.mem_cons.mp hspec with rfl | hspec
      · unfold ListKey at hlist
        push Not at hlist
        obtain ⟨htype, hdim, v, hvalue, hnot⟩ := hlist
        obtain ⟨table, name, htable, hres⟩ := configParseSingleSpec_some hvalue
        have hcrash : tomlTableParseListStr al junk table name (st.config spec.member) st.memory = none := by
          rw [tomlTableParseListStr, htable]
          cases freeStrings (st.config spec.member) st.memory with
          | none => rfl
          | some m =>
              cases v with
              | array items => exact absurd rfl (hnot items)
              | int i | string s | bool b | other => rfl
        rw [hres, configParseElement, if_pos hdim, configParseSingleElement, htype]
        dsimp only
        rw [hcrash]
        rfl
      · cases configParseSingleSpec al junk doc other st with
        | none => rfl
        | some p =>
            rw [Option.bind_eq_bind, Option.bind_some]
            dsimp only
            rw [ih hspec]
            rfl

/-! ## The override -/

/-- The option that an override names, and its value -/
def overrideTarget (specs : List (ConfigSpec μ)) (token : List Char) : Option (ConfigSpec μ × List Char) :=
  let option := token.dropWhile (· = ' ')
  match option.dropWhile (· ≠ '=') with
  | _ :: value =>
      if option.takeWhile (· ≠ '=') = [] then none
      else (specs.find? (·.name = trimTrailing (option.takeWhile (· ≠ '=')))).map
        fun spec => (spec, value.dropWhile (· = ' '))
  | [] => none

/-- The text of an override can be parsed for the type. -/
def ValueFits (type : SpecType) (value : List Char) : Prop :=
  match type with
  | .str => True
  | .listStr => False
  | _ => (stringParse (.int 0) value type).1 = 0

/-- The override is blank, or names an option that its value fits. -/
def TokenFits (specs : List (ConfigSpec μ)) (token : List Char) : Prop :=
  token.dropWhile (· = ' ') = []
    ∨ ∃ target, overrideTarget specs token = some target ∧ ValueFits target.1.type target.2

/-- The value of an option after an override -/
def overrideValue (specs : List (ConfigSpec μ)) (spec : ConfigSpec μ) (last : Option (List Char))
    (token : List Char) : Option (List Char) :=
  match overrideTarget specs token with
  | some (other, value) => if other.name = spec.name then some value else last
  | none => last

/-- The value that the option is given last, if an override names it -/
def lastValue (specs : List (ConfigSpec μ)) (spec : ConfigSpec μ) (tokens : List (List Char)) :
    Option (List Char) := tokens.foldl (overrideValue specs spec) none

omit [DecidableEq μ] in
theorem overrideTarget_mem {token value : List Char} (h : overrideTarget specs token = some (spec, value)) :
    spec ∈ specs := by
  unfold overrideTarget at h
  dsimp only at h
  split at h
  · split at h
    · nomatch h
    · obtain ⟨other, hfind, heq⟩ := Option.map_eq_some_iff.mp h
      rw [← (Prod.mk.inj heq).1]
      exact List.mem_of_find?_eq_some hfind
  · nomatch h

theorem overrideOption_target {token value : List Char} (h : overrideTarget specs token = some (spec, value)) :
    overrideOption al specs token st
      = st.store spec.member (parseValue al spec.type (st.config spec.member) value st.memory) := by
  unfold overrideTarget at h
  unfold overrideOption
  dsimp only at h ⊢
  generalize (token.dropWhile (· = ' ')).dropWhile (· ≠ '=') = rest at h ⊢
  cases rest with
  | nil => nomatch h
  | cons c rest =>
      dsimp only at h ⊢
      split at h
      · nomatch h
      · next hne =>
          obtain ⟨other, hfind, hpair⟩ := Option.map_eq_some_iff.mp h
          obtain ⟨rfl, rfl⟩ := Prod.mk.inj hpair
          rw [configParseSingleOverride, if_neg hne, hfind]

theorem overrideOption_none {token : List Char} (h : overrideTarget specs token = none) :
    overrideOption al specs token st = if token.dropWhile (· = ' ') = [] then some (0, st) else some (1, st) := by
  unfold overrideTarget at h
  unfold overrideOption
  dsimp only at h ⊢
  generalize hrest : (token.dropWhile (· = ' ')).dropWhile (· ≠ '=') = rest at h ⊢
  cases rest with
  | nil => rfl
  | cons c rest =>
      have hne : ¬ token.dropWhile (· = ' ') = [] := by
        intro hnil
        rw [hnil] at hrest
        nomatch hrest
      dsimp only at h ⊢
      rw [if_neg hne, configParseSingleOverride]
      split at h
      · next hoption => exact if_pos hoption
      · next hoption =>
          rw [if_neg hoption, Option.map_eq_none_iff.mp h]

/-- An array that an override has named is a string over its items. -/
def Overridden (last : ConfigSpec μ → Option (List Char)) (spec : ConfigSpec μ) (m : Memory Block)
    (cell : Cell) (own : List Addr) : Prop :=
  if spec.dimensions = 0 ∨ last spec = none then HasShape m spec.type spec.dimensions cell own
  else IsString m cell own ∧ (last spec = some [] ↔ cell.word = .pointer none)

omit [DecidableEq μ] in
theorem overridden_local (last : ConfigSpec μ → Option (List Char)) : Local (Overridden last) := by
  intro spec m m' cell own h hsame
  unfold Overridden at h ⊢
  split at h
  · next hkept =>
      rw [if_pos hkept]
      exact h.same hsame
  · next hnamed =>
      rw [if_neg hnamed]
      exact ⟨h.1.same hsame, h.2⟩

/-- A table of options in which only strings stand in arrays -/
structure OptionTable (μ : Type) extends SpecTable μ where
  members : (specs.map ConfigSpec.member).Nodup
  arrays : ∀ spec ∈ specs, spec.dimensions ≠ 0 → spec.type = .str

/-- A value that does not fit leaves a number as it was. -/
theorem parseValue_number {type : SpecType} (htype : type ≠ .str) (cell : Cell) (value : List Char)
    (m : Memory Block) :
    ∃ ret cell', parseValue al type cell value m = some (ret, cell', m) ∧ 0 ≤ ret
      ∧ (ret = 0 ↔ ValueFits type value) ∧ (ValueFits type value → IsNumber cell' [])
      ∧ (¬ ValueFits type value → cell' = cell) := by
  have hnumber : ∀ p, NumberParsed p → 0 ≤ (storeNumber p cell).1 ∧ ((storeNumber p cell).1 = 0 ↔ p.1 = 0)
      ∧ (p.1 = 0 → IsNumber (storeNumber p cell).2 []) ∧ (¬ p.1 = 0 → (storeNumber p cell).2 = cell) := by
    rintro p hp
    obtain ⟨ret, cell', m', own', hres, hret, hzero, hframe, hshape⟩ :=
      storeNumber_parses (m := m) hp cell
    obtain ⟨rfl, rfl, rfl⟩ : _ ∧ _ ∧ _ := by simpa using hres
    refine ⟨hret, hzero, fun h => ⟨(hshape h).1, rfl⟩, fun h => ?_⟩
    unfold storeNumber
    split
    · exact absurd rfl h
    · rfl
  cases type with
  | str => exact absurd rfl htype
  | listStr =>
      exact ⟨1, cell, rfl, Int.zero_le_ofNat 1, iff_of_false Int.one_ne_zero id, False.elim, fun _ => rfl⟩
  | int64 | ptr | uint64 | size | bool =>
      obtain ⟨hret, hzero, hshape, hkept⟩ := hnumber _ (stringParse_parsed htype value)
      exact ⟨_, _, rfl, hret, hzero, hshape, hkept⟩

theorem hasShape_number {type : SpecType} {value : List Char} {own : List Addr} (htype : type ≠ .str)
    (hvalue : ValueFits type value) (h : IsNumber cell own) : HasShape m type 0 cell own := by
  cases type with
  | str => exact absurd rfl htype
  | listStr => exact absurd hvalue id
  | int64 | ptr | uint64 | size | bool => exact h

theorem IsArray.heads {P : Cell → List Addr → Prop} {own : List Addr} (h : IsArray P m cell own) :
    Heads cell own := by
  rcases h with ⟨rfl, -⟩ | ⟨a, items, owns, rfl, -, -, rfl⟩
  · exact ⟨none, rfl, fun _ ha => absurd ha (Option.not_mem_none _)⟩
  · exact ⟨some a, rfl, fun b hb => Option.some.inj hb ▸ List.mem_cons_self⟩

omit [DecidableEq μ] in
/-- The first word of an array can be freed as that of a string can. -/
theorem Overridden.heads {last : ConfigSpec μ → Option (List Char)} {own : List Addr}
    (htype : spec.type = .str) (h : Overridden last spec m cell own) : Heads cell own := by
  unfold Overridden at h
  split at h
  · rw [htype] at h
    cases hdim : spec.dimensions with
    | zero =>
        rw [hdim] at h
        exact IsString.heads h
    | succ d =>
        rw [hdim] at h
        exact IsArray.heads h
  · exact h.1.heads

theorem count_update {config : μ → Cell} {i : μ} (h : cell.count = (config i).count) (j : μ) :
    (Function.update config i cell j).count = (config j).count := by
  by_cases hj : j = i
  · rw [hj, Function.update_self, h]
  · rw [Function.update_of_ne hj]

variable {t : OptionTable μ} {last : ConfigSpec μ → Option (List Char)}

omit [DecidableEq μ] in
theorem overrideValue_other {other : ConfigSpec μ} {token value : List Char} (hother : other ∈ t.specs)
    (hne : other ≠ spec) (htarget : overrideTarget t.specs token = some (spec, value)) :
    overrideValue t.specs other (last other) token = last other := by
  have hspec := overrideTarget_mem htarget
  rw [overrideValue, htarget]
  exact if_neg fun hname => hne (List.inj_on_of_nodup_map t.nodup hother hspec hname.symm)

theorem overrideOption_parses (token : List Char) (h : Each t.specs (Overridden last) st own) :
    ∃ ret st' own', overrideOption al t.specs token st = some (ret, st') ∧ 0 ≤ ret
      ∧ (ret = 0 ↔ TokenFits t.specs token)
      ∧ Each t.specs (Overridden fun spec => overrideValue t.specs spec (last spec) token) st' own'
      ∧ ∀ spec ∈ t.specs, spec.dimensions ≠ 0 →
        (st'.config spec.member).count = (st.config spec.member).count := by
  cases htarget : overrideTarget t.specs token with
  | none =>
      have hlast : (fun spec => overrideValue t.specs spec (last spec) token) = last := by
        funext spec
        rw [overrideValue, htarget]
      have hfits : TokenFits t.specs token ↔ token.dropWhile (· = ' ') = [] := by
        refine or_iff_left ?_
        rintro ⟨target, heq, -⟩
        rw [htarget] at heq
        nomatch heq
      rw [overrideOption_none htarget, hlast, hfits]
      by_cases hblank : token.dropWhile (· = ' ') = []
      · rw [if_pos hblank]
        exact ⟨0, st, own, rfl, Int.le_refl 0, iff_of_true rfl hblank, h, fun _ _ _ => rfl⟩
      · rw [if_neg hblank]
        exact ⟨1, st, own, rfl, Int.zero_le_ofNat 1, iff_of_false Int.one_ne_zero hblank, h, fun _ _ _ => rfl⟩
  | some target =>
      obtain ⟨spec, value⟩ := target
      have hspec := overrideTarget_mem htarget
      have hfits : TokenFits t.specs token ↔ ValueFits spec.type value := by
        refine ⟨fun hfits => ?_, fun hfits => Or.inr ⟨_, htarget, hfits⟩⟩
        rcases hfits with hblank | ⟨target, heq, hfits⟩
        · unfold overrideTarget at htarget
          dsimp only at htarget
          rw [hblank] at htarget
          nomatch htarget
        · obtain rfl := Option.some.inj (htarget.symm.trans heq)
          exact hfits
      have hother : ∀ other ∈ t.specs, other ≠ spec → ∀ m c o, Overridden last other m c o →
          Overridden (fun spec => overrideValue t.specs spec (last spec) token) other m c o := by
        intro other hin hne m c o ho
        rw [Overridden, overrideValue_other hin hne htarget]
        exact ho
      have hlast : overrideValue t.specs spec (last spec) token = some value := by
        rw [overrideValue, htarget]
        exact if_pos rfl
      have hover := h.2 spec hspec
      rw [overrideOption_target htarget, hfits]
      by_cases htype : spec.type = .str
      · obtain ⟨ret, cell, m', own', hres, hret, hzero, hframe, hP⟩ :=
          stringParseStr_parses value (hover.heads htype) (h.1.owns spec.member)
        obtain ⟨hstring, hcount, hnull⟩ := hP trivial
        refine ⟨ret, ⟨Function.update st.config spec.member cell, m'⟩, _, ?_, hret,
          hzero.trans (iff_of_true trivial (by rw [htype]; trivial)),
          h.update (overridden_local _) t.members hspec hframe ?_ hother, fun other hin _ => ?_⟩
        · rw [htype, parseValue, hres]
          rfl
        · rw [Overridden, hlast, htype]
          by_cases hdim : spec.dimensions = 0
          · rw [if_pos (Or.inl hdim), hdim]
            exact hstring
          · rw [if_neg (by simp [hdim])]
            exact ⟨hstring, (by simp : some value = some [] ↔ value = []).trans hnull⟩
        · exact count_update hcount other.member
      · have hdim : spec.dimensions = 0 := by
          by_contra hdim
          exact htype (t.arrays spec hspec hdim)
        obtain ⟨ret, cell, hres, hret, hzero, hnumber, hkept⟩ :=
          parseValue_number htype (st.config spec.member) value st.memory
        by_cases hvalue : ValueFits spec.type value
        · refine ⟨ret, ⟨Function.update st.config spec.member cell, st.memory⟩, _, ?_, hret, hzero,
            h.update (overridden_local _) t.members hspec
              ((Framed.refl Owns.nil).leak (h.1.owns spec.member)) ?_ hother, fun other hin hother => ?_⟩
          · rw [hres]
            rfl
          · rw [Overridden, if_pos (Or.inl hdim), hdim]
            exact hasShape_number htype hvalue (hnumber hvalue)
          · have hne : other.member ≠ spec.member := fun heq =>
              hother (List.inj_on_of_nodup_map t.members hin hspec heq ▸ hdim)
            dsimp only
            rw [Function.update_of_ne hne]
        · obtain rfl := hkept hvalue
          refine ⟨ret, st, own, ?_, hret, hzero, ⟨h.1, fun other hin => ?_⟩, fun _ _ _ => rfl⟩
          · rw [hres, State.store, Option.map_some]
            dsimp only
            rw [Function.update_eq_self]
          · by_cases heq : other = spec
            · rw [heq, Overridden, if_pos (Or.inl hdim)]
              rw [Overridden, if_pos (Or.inl hdim)] at hover
              exact hover
            · exact hother other hin heq _ _ _ (h.2 other hin)

theorem overrideOptions_parses (tokens : List (List Char)) :
    ∀ {st : State μ} {own : μ → List Addr} {last : ConfigSpec μ → Option (List Char)},
      Each t.specs (Overridden last) st own →
      ∃ fail st' own', overrideOptions al t.specs tokens st = some (fail, st') ∧ 0 ≤ fail
        ∧ (fail = 0 ↔ ∀ token ∈ tokens, TokenFits t.specs token)
        ∧ Each t.specs (Overridden fun spec => tokens.foldl (overrideValue t.specs spec) (last spec)) st' own'
        ∧ ∀ spec ∈ t.specs, spec.dimensions ≠ 0 →
          (st'.config spec.member).count = (st.config spec.member).count := by
  induction tokens with
  | nil =>
      intro st own last h
      exact ⟨0, st, own, rfl, Int.le_refl 0, iff_of_true rfl fun token hin => absurd hin List.not_mem_nil, h,
        fun _ _ _ => rfl⟩
  | cons token tokens ih =>
      intro st own last h
      obtain ⟨ret, st₁, own₁, hres, hret, hzero, heach, hcount⟩ := overrideOption_parses token h
      obtain ⟨fail, st', own', hres', hfail, hzero', heach', hcount'⟩ := ih heach
      refine ⟨if ret = 0 then fail else 1, st', own', ?_, ?_, ?_, heach', fun spec hin hdim =>
        (hcount' spec hin hdim).trans (hcount spec hin hdim)⟩
      · rw [overrideOptions, hres, Option.bind_eq_bind, Option.bind_some]
        dsimp only
        rw [hres']
        rfl
      · split
        · exact hfail
        · exact Int.zero_le_ofNat 1
      · rw [List.forall_mem_cons, ← hzero, ← hzero']
        split
        · next h => exact (and_iff_right h).symm
        · next h => exact iff_of_false Int.one_ne_zero fun hand => h hand.1

/-! ## The defaults -/

/-- The table of `config_spec_list` -/
def configOptions : OptionTable Member where
  toSpecTable := configSpecTable
  members := by decide
  arrays := by decide

/-- The cell is zero, or the default of a number. -/
def plainCell (type : SpecType) (dimensions : Nat) (cell : Cell) : Bool :=
  match type, dimensions, cell with
  | .str, 0, ⟨.pointer none, _⟩ => true
  | .listStr, 0, ⟨.pointer none, 0⟩ => true
  | .str, _ + 1, ⟨.pointer none, 0⟩ => true
  | .int64, 0, ⟨.number _, _⟩ => true
  | .ptr, 0, ⟨.number _, _⟩ => true
  | .uint64, 0, ⟨.number _, _⟩ => true
  | .size, 0, ⟨.number _, _⟩ => true
  | .bool, 0, ⟨.number _, _⟩ => true
  | _, _, _ => false

theorem plainCell_shape {type : SpecType} {dimensions : Nat} (h : plainCell type dimensions cell = true) :
    HasShape m type dimensions cell [] := by
  unfold plainCell at h
  split at h
  · exact Or.inl ⟨rfl, rfl⟩
  · exact Or.inl ⟨rfl, rfl⟩
  · exact Or.inl ⟨rfl, rfl⟩
  · exact ⟨⟨_, rfl⟩, rfl⟩
  · exact ⟨⟨_, rfl⟩, rfl⟩
  · exact ⟨⟨_, rfl⟩, rfl⟩
  · exact ⟨⟨_, rfl⟩, rfl⟩
  · exact ⟨⟨_, rfl⟩, rfl⟩
  · nomatch h

/-- Without a file, no array has an item. -/
def Fresh (spec : ConfigSpec μ) (m : Memory Block) (cell : Cell) (own : List Addr) : Prop :=
  HasShape m spec.type spec.dimensions cell own ∧ (spec.dimensions ≠ 0 → cell.count = 0)

omit [DecidableEq μ] in
theorem fresh_local : Local (@Fresh μ) := fun _ _ _ _ _ h hsame => ⟨h.1.same hsame, h.2⟩

theorem defaultCell_fresh :
    ∀ spec ∈ configOptions.specs, plainCell spec.type spec.dimensions (defaultCell spec.member) = true := by
  decide

theorem defaultCell_count :
    ∀ spec ∈ configOptions.specs, spec.dimensions ≠ 0 → (defaultCell spec.member).count = 0 := by decide

variable (al) in
theorem setString_fresh (default : μ × List Char) (hspec : spec ∈ t.specs) (hmember : spec.member = default.1)
    (htype : spec.type = .str) (hdim : spec.dimensions = 0) (h : Each t.specs Fresh st own) :
    ∃ own', Each t.specs Fresh (setString al st default) own' := by
  have halloc := (alloc_frame al (Block.text default.2) (Owns.nil (m := st.memory))).leak
    (h.1.owns spec.member)
  have hlookup := lookup_alloc al (Block.text default.2) st.memory
  rw [setString]
  generalize alloc al (Block.text default.2) st.memory = p at halloc hlookup
  obtain ⟨a, m'⟩ := p
  rw [← hmember]
  refine ⟨_, h.update fresh_local t.members hspec halloc ⟨?_, fun hne => absurd hdim hne⟩
    fun _ _ _ _ _ _ => id⟩
  rw [htype, hdim]
  exact Or.inr ⟨a, default.2, rfl, hlookup, rfl⟩

/-- There is an option of strings for the default. -/
def StringOption (specs : List (ConfigSpec μ)) (member : μ) : Prop :=
  ∃ spec ∈ specs, spec.member = member ∧ spec.type = .str ∧ spec.dimensions = 0

theorem setStrings_fresh (defaults : List (μ × List Char)) :
    ∀ {st : State μ} {own : μ → List Addr}, (∀ default ∈ defaults, StringOption t.specs default.1) →
      Each t.specs Fresh st own → ∃ own', Each t.specs Fresh (defaults.foldl (setString al) st) own' := by
  induction defaults with
  | nil => exact fun _ h => ⟨_, h⟩
  | cons default defaults ih =>
      intro st own hdefaults h
      obtain ⟨spec, hspec, hmember, htype, hdim⟩ := hdefaults default List.mem_cons_self
      obtain ⟨own', h'⟩ := setString_fresh al default hspec hmember htype hdim h
      exact ih (fun other hin => hdefaults other (List.mem_cons_of_mem default hin)) h'

variable (al) in
theorem setEvent_parses (s : List Char) (cell : Cell) (m : Memory Block) :
    Parses m [] True IsText (setEvent al s cell m) :=
  ⟨0, _, _, _, rfl, Int.le_refl 0, iff_of_true rfl trivial, alloc_frame al (Block.text s) Owns.nil,
    fun _ => ⟨_, s, rfl, lookup_alloc al (Block.text s) m, rfl⟩⟩

instance (specs : List (ConfigSpec Member)) (member : Member) : Decidable (StringOption specs member) :=
  inferInstanceAs (Decidable (∃ spec ∈ specs, _))

def eventsSpec : ConfigSpec Member := ⟨.listStr, 0, "hwcounters.papi_events".toList, .hwcountersPapiEvents⟩

theorem configInit_fresh (al : Allocator) (junk : Cell) (m : Memory Block) :
    ∃ st own, configInit al junk m = some st ∧ Each configOptions.specs Fresh st own := by
  have hplain : Each configOptions.specs Fresh ⟨defaultCell, m⟩ fun _ => [] := by
    refine ⟨⟨fun _ => Owns.nil, fun _ _ _ _ ha => absurd ha List.not_mem_nil⟩, fun spec hspec => ?_⟩
    exact ⟨plainCell_shape (defaultCell_fresh spec hspec), defaultCell_count spec hspec⟩
  obtain ⟨own₁, h₁⟩ := setStrings_fresh (t := configOptions) defaultStrings (by decide) hplain
  rw [configInit]
  generalize defaultStrings.foldl (setString al) ⟨defaultCell, m⟩ = st₁ at h₁
  -- the list of events
  obtain ⟨ret, cell, m₂, own₂, hres, -, -, hframe, hshape⟩ :=
    fillItems_parses (P := IsText) (I := fun _ => True)
      (fun _ _ _ _ htext hsame => htext.same hsame) (fun s c m _ => setEvent_parses al s c m)
      defaultEvents trivial st₁.memory
  have hevents : eventsSpec ∈ configOptions.specs :=
    List.mem_of_getElem? (show configSpecList[21]? = some eventsSpec from rfl)
  have h₂ := h₁.update fresh_local configOptions.members hevents
    (hframe.leak (h₁.1.owns _)) ⟨hshape fun _ _ => trivial, fun hdim => absurd rfl hdim⟩ fun _ _ _ _ _ _ => id
  have hversion : StringOption configOptions.specs .instrumentationVersion := by decide
  obtain ⟨spec, hspec, hmember, htype, hdim⟩ := hversion
  obtain ⟨own', h'⟩ := setString_fresh al (Member.instrumentationVersion, "none".toList)
    hspec hmember htype hdim h₂
  refine ⟨_, own', ?_, h'⟩
  dsimp only at hres ⊢
  generalize alloc al (Block.cells (List.replicate defaultEvents.length junk)) st₁.memory = p at hres
  cases hfill : fillItems (setEvent al) p.1 defaultEvents 0 p.2 with
  | none =>
      rw [hfill] at hres
      nomatch hres
  | some q =>
      rw [hfill, Option.bind_eq_bind, Option.bind_some] at hres
      obtain ⟨-, hcell, hm⟩ := (by simpa using hres : q.1 = ret ∧ _ = cell ∧ q.2 = m₂)
      rw [Option.bind_eq_bind, Option.bind_some, ← hcell, ← hm]
      rfl

/-! ## File and override -/

/-- An array that an override names is empty in the file, and the value it
is given last is empty too. -/
def ArraysKept (doc : TomlDoc) (specs : List (ConfigSpec μ)) (tokens : List (List Char)) : Prop :=
  ∀ spec ∈ specs, spec.dimensions ≠ 0 → ∀ value, lastValue specs spec tokens = some value →
    value = [] ∧ keyLength doc spec = 0

omit [DecidableEq μ] in
/-- Only `NULL` is a string and an array. -/
theorem isArray_isString {P : Cell → List Addr → Prop} {own own' : List Addr} (h : IsString m cell own)
    (h' : IsArray P m cell own') : cell.word = .pointer none ∧ cell.count = 0 := by
  rcases h' with ⟨rfl, -⟩ | ⟨a, items, owns, rfl, hitems, -, -⟩
  · exact ⟨rfl, rfl⟩
  · rcases h with ⟨hword, -⟩ | ⟨b, s, hword, htext, -⟩
    · exact nomatch Word.pointer.inj hword
    · obtain rfl := Option.some.inj (Word.pointer.inj hword)
      rw [hitems] at htext
      exact nomatch Option.some.inj htext

omit [DecidableEq μ] in
theorem wellTyped_iff {last : ConfigSpec μ → Option (List Char)} (h : Each t.specs (Overridden last) st own) :
    WellTyped t.specs st ↔ ∀ spec ∈ t.specs, spec.dimensions ≠ 0 → ∀ value, last spec = some value →
      value = [] ∧ (st.config spec.member).count = 0 := by
  have hnamed : ∀ spec ∈ t.specs, spec.dimensions ≠ 0 → ∀ value, last spec = some value →
      IsString st.memory (st.config spec.member) (own spec.member)
        ∧ (value = [] ↔ (st.config spec.member).word = .pointer none) := by
    intro spec hspec hdim value hvalue
    have hover := h.2 spec hspec
    rw [Overridden, if_neg (by simp [hdim, hvalue]), hvalue] at hover
    exact ⟨hover.1, (by simp : some value = some [] ↔ value = []).symm.trans hover.2⟩
  constructor
  · rintro ⟨own', -, hshape⟩ spec hspec hdim value hvalue
    obtain ⟨hstring, hnull⟩ := hnamed spec hspec hdim value hvalue
    obtain ⟨d, hd⟩ := Nat.exists_eq_succ_of_ne_zero hdim
    have hshape := hshape spec hspec
    rw [hd] at hshape
    obtain ⟨hword, hcount⟩ := isArray_isString hstring hshape
    exact ⟨hnull.mpr hword, hcount⟩
  · intro hkept
    refine ⟨own, h.1, fun spec hspec => ?_⟩
    by_cases hplain : spec.dimensions = 0 ∨ last spec = none
    · have hover := h.2 spec hspec
      rw [Overridden, if_pos hplain] at hover
      exact hover
    · obtain ⟨hdim, hlast⟩ := not_or.mp hplain
      obtain ⟨value, hvalue⟩ := Option.ne_none_iff_exists'.mp hlast
      obtain ⟨hstring, hnull⟩ := hnamed spec hspec hdim value hvalue
      obtain ⟨hempty, hcount⟩ := hkept spec hspec hdim value hvalue
      have hword := hnull.mp hempty
      obtain ⟨d, hd⟩ := Nat.exists_eq_succ_of_ne_zero hdim
      rw [hd]
      rcases hstring with ⟨-, hown⟩ | ⟨a, s, hsome, -, -⟩
      · refine Or.inl ⟨?_, hown⟩
        rw [← hword, ← hcount]
      · rw [hword] at hsome
        nomatch Word.pointer.inj hsome

variable (al) (junk) (m) (doc) in
/-- What has been parsed, if the lists of strings stand as arrays -/
theorem configParse_outcome (configOverride : List Char) (hlist : ∀ spec ∈ configSpecList, ListKey doc spec) :
    ∃ err st, configParse al junk m doc configOverride = some (err, st)
      ∧ (err = 0 ↔ (∀ spec ∈ configSpecList, KeyFits doc spec)
        ∧ ∀ token ∈ strtok ',' configOverride, TokenFits configSpecList token)
      ∧ (err = 0 → (WellTyped configSpecList st
        ↔ ArraysKept doc configSpecList (strtok ',' configOverride))) := by
  obtain ⟨st₀, own₀, hinit, hfresh⟩ := configInit_fresh al junk m
  have hload : Each configOptions.specs (Loaded doc configSpecList) st₀ own₀ :=
    ⟨hfresh.1, fun spec hspec => ⟨fun _ => (hfresh.2 spec hspec).1, fun hdim =>
      ⟨fun _ => (hfresh.2 spec hspec).2 (Nat.ne_of_gt hdim), fun hnot => absurd hspec hnot⟩⟩⟩
  obtain ⟨fail, st₁, own₁, hpop, hfail, hfits, hloaded⟩ :=
    configPopulate_parses configOptions.members configSpecList
      (List.Subset.refl _) configOptions.members.of_map hlist hload
  rw [configParse, hinit, Option.bind_eq_bind, Option.bind_some]
  dsimp only
  rw [hpop, Option.bind_eq_bind, Option.bind_some]
  dsimp only
  by_cases hzero : fail = 0
  · have hkeys := hfits.mp hzero
    have hplain : Each configOptions.specs (Overridden fun _ => none) st₁ own₁ := by
      refine ⟨hloaded.1, fun spec hspec => ?_⟩
      rw [Overridden, if_pos (Or.inr rfl)]
      exact (hloaded.2 spec hspec).1 (Or.inr (hkeys spec hspec))
    obtain ⟨err, st', own', hover, herr, hzero', heach, hcount⟩ :=
      overrideOptions_parses (strtok ',' configOverride) hplain
    rw [if_neg (not_not.mpr hzero)]
    refine ⟨err, st', hover, hzero'.trans (and_iff_right hkeys).symm, fun _ => (wellTyped_iff heach).trans ?_⟩
    refine forall_congr' fun spec => forall_congr' fun hspec => forall_congr' fun hdim =>
      forall_congr' fun value => forall_congr' fun _ => ?_
    rw [hcount spec hspec hdim, ((hloaded.2 spec hspec).2 (Nat.pos_of_ne_zero hdim)).2 List.not_mem_nil
      (hkeys spec hspec)]
  · rw [if_pos hzero]
    refine ⟨fail, st₁, rfl, ?_, fun h => absurd h hzero⟩
    exact iff_of_false hzero fun hand => hzero (hfits.mpr hand.1)

/-- After the file and the override either an error has been reported or the
configuration is well typed, exactly if the lists of strings stand as
arrays in the file and, where no error is reported, no array is overridden
but an empty one with an empty value. -/
theorem config_typed_iff (al : Allocator) (junk : Cell) (m : Memory Block) (doc : TomlDoc)
    (configOverride : List Char) :
    (∃ err st, configParse al junk m doc configOverride = some (err, st)
      ∧ (err ≠ 0 ∨ WellTyped configSpecList st))
    ↔ (∀ spec ∈ configSpecList, ListKey doc spec)
      ∧ ((∃ spec ∈ configSpecList, ¬ KeyFits doc spec)
        ∨ (∃ token ∈ strtok ',' configOverride, ¬ TokenFits configSpecList token)
        ∨ ArraysKept doc configSpecList (strtok ',' configOverride)) := by
  by_cases hlist : ∀ spec ∈ configSpecList, ListKey doc spec
  · obtain ⟨err, st, hparse, hzero, htyped⟩ := configParse_outcome al junk m doc configOverride hlist
    rw [and_iff_right hlist, hparse]
    constructor
    · rintro ⟨err', st', heq, hgood⟩
      obtain ⟨rfl, rfl⟩ := Prod.mk.inj (Option.some.inj heq)
      by_cases herr : err = 0
      · exact Or.inr (Or.inr ((htyped herr).mp (hgood.resolve_left (not_not.mpr herr))))
      · rw [hzero, not_and_or] at herr
        push Not at herr
        exact herr.imp id Or.inl
    · intro hcond
      refine ⟨err, st, rfl, ?_⟩
      by_cases herr : err = 0
      · obtain ⟨hkeys, htokens⟩ := hzero.mp herr
        rcases hcond with ⟨spec, hspec, hnot⟩ | ⟨token, htoken, hnot⟩ | hkept
        · exact absurd (hkeys spec hspec) hnot
        · exact absurd (htokens token htoken) hnot
        · exact Or.inr ((htyped herr).mpr hkept)
      · exact Or.inl herr
  · refine iff_of_false ?_ fun hand => hlist hand.1
    rintro ⟨err, st, hparse, -⟩
    push Not at hlist
    obtain ⟨spec, hspec, hnot⟩ := hlist
    obtain ⟨st₀, own₀, hinit, -⟩ := configInit_fresh al junk m
    rw [configParse, hinit, Option.bind_eq_bind, Option.bind_some] at hparse
    dsimp only at hparse
    rw [configPopulate_crash hspec hnot] at hparse
    nomatch hparse

def numaNodes : List TomlValue := [.string "0-1".toList, .string "2-3".toList]

/-- A file with two sets of CPUs for `topology.numa_nodes` -/
def numaDoc : TomlDoc where
  keys _ := none
  tables section' :=
    if section' = "topology".toList then
      some fun key => if key = "numa_nodes".toList then some (.array numaNodes) else none
    else none

def numaSpec : ConfigSpec Member := ⟨.str, 1, "topology.numa_nodes".toList, .topologyNumaNodes⟩

theorem numaSpec_mem : numaSpec ∈ configSpecList :=
  List.mem_of_getElem? (show configSpecList[13]? = some numaSpec from rfl)

theorem numaDoc_value : ∀ spec ∈ configSpecList, spec.name = numaSpec.name
    ∨ (numaDoc.value spec.name).isNone = true := by decide +kernel

theorem numaDoc_key {spec : ConfigSpec Member} (hspec : spec ∈ configSpecList) {v : TomlValue}
    (hv : numaDoc.value spec.name = some v) : spec = numaSpec ∧ v = .array numaNodes := by
  rcases numaDoc_value spec hspec with hname | hnone
  · obtain rfl := List.inj_on_of_nodup_map configSpecTable.nodup hspec numaSpec_mem hname
    have hvalue : numaDoc.value numaSpec.name = some (.array numaNodes) := rfl
    exact ⟨rfl, (Option.some.inj (hvalue.symm.trans hv)).symm⟩
  · rw [hv] at hnone
    nomatch hnone

def numaOverride : List Char := "topology.numa_nodes=0-3".toList

theorem strtok_numaOverride : strtok ',' numaOverride = [numaOverride] := rfl

theorem overrideTarget_numaOverride :
    overrideTarget configSpecList numaOverride = some (numaSpec, "0-3".toList) := rfl

/-- An override puts a single string over the two sets, and no error is
reported. -/
theorem numa_nodes_overridden :
    ¬ ∃ al junk err st, configParse al junk ∅ numaDoc numaOverride = some (err, st)
      ∧ (err ≠ 0 ∨ WellTyped configSpecList st) := by
  have hlist : ∀ spec ∈ configSpecList, ListKey numaDoc spec := by
    intro spec hspec htype _ v hv
    obtain ⟨rfl, -⟩ := numaDoc_key hspec hv
    nomatch htype
  have hkeys : ∀ spec ∈ configSpecList, KeyFits numaDoc spec := by
    intro spec hspec v hv
    obtain ⟨rfl, rfl⟩ := numaDoc_key hspec hv
    intro w hw
    rcases List.mem_cons.mp hw with rfl | hw
    · exact ⟨_, rfl⟩
    · exact ⟨_, List.mem_singleton.mp hw⟩
  have htokens : ∀ token ∈ strtok ',' numaOverride, TokenFits configSpecList token := by
    intro token htoken
    obtain rfl := List.mem_singleton.mp (strtok_numaOverride ▸ htoken)
    exact Or.inr ⟨_, overrideTarget_numaOverride, trivial⟩
  have hlast : lastValue configSpecList numaSpec (strtok ',' numaOverride) = some "0-3".toList := by
    rw [strtok_numaOverride, lastValue, List.foldl_cons, List.foldl_nil, overrideValue,
      overrideTarget_numaOverride]
    exact if_pos rfl
  rintro ⟨al, junk, err', st', heq, hgood⟩
  obtain ⟨err, st, hparse, hzero, htyped⟩ := configParse_outcome al junk ∅ numaDoc numaOverride hlist
  obtain ⟨rfl, rfl⟩ := Prod.mk.inj (Option.some.inj (hparse.symm.trans heq))
  have herr : err = 0 := hzero.mpr ⟨hkeys, htokens⟩
  have hkept := (htyped herr).mp (hgood.resolve_left (not_not.mpr herr))
  nomatch (hkept numaSpec numaSpec_mem (by decide) _ hlast).1

end ConfigMemory

end Nosv
