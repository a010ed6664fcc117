import Mathlib.Data.List.Forall2
import Nosv.ConfigMemory

/-!
# The shape of an option

`HasShape` says what the memory of an option is for its type and its
dimensions, and which blocks the option owns by it. Each parse function ends
with a return value that says whether the value fits, touches nothing but
the blocks of its option and, if the value fits, leaves the shape.
-/

namespace Nosv

open CString Blocks

namespace ConfigMemory

open Config

variable {al : Allocator} {junk : Cell} {m m' : Memory Block} {cell : Cell} {own own' : List Addr}
  {a : Addr} {type : SpecType}

/-! ## Shapes -/

def IsNumber (cell : Cell) (own : List Addr) : Prop := (∃ i, cell.word = .number i) ∧ own = []

def IsText (m : Memory Block) (cell : Cell) (own : List Addr) : Prop :=
  ∃ a s, cell.word = .pointer (some a) ∧ m.lookup a = some (.text s) ∧ own = [a]

/-- A `char *`; the empty string is `NULL`. -/
def IsString (m : Memory Block) (cell : Cell) (own : List Addr) : Prop :=
  (cell.word = .pointer none ∧ own = []) ∨ IsText m cell own

/-- A pointer to as many items as the count says, each of a shape -/
def IsArray (P : Cell → List Addr → Prop) (m : Memory Block) (cell : Cell) (own : List Addr) : Prop :=
  (cell = ⟨.pointer none, 0⟩ ∧ own = [])
    ∨ ∃ a items owns, cell = ⟨.pointer (some a), items.length⟩ ∧ m.lookup a = some (.cells items)
      ∧ List.Forall₂ P items owns ∧ own = a :: owns.flatten

/-- The option has the declared shape and owns these blocks. -/
def HasShape (m : Memory Block) (type : SpecType) : Nat → Cell → List Addr → Prop
  | 0 =>
      match type with
      | .str => IsString m
      | .listStr => IsArray (IsText m) m
      | _ => IsNumber
  | dimensions + 1 => IsArray (HasShape m type dimensions) m

/-- Blocks of the owner hold what they held. -/
def Same (m m' : Memory Block) (own : List Addr) : Prop := ∀ a ∈ own, m'.lookup a = m.lookup a

theorem IsText.same (h : IsText m cell own) (hsame : Same m m' own) : IsText m' cell own := by
  obtain ⟨a, s, hword, htext, rfl⟩ := h
  exact ⟨a, s, hword, (hsame a List.mem_cons_self).trans htext, rfl⟩

theorem IsString.same (h : IsString m cell own) (hsame : Same m m' own) : IsString m' cell own :=
  h.imp id fun htext => htext.same hsame

theorem forall₂_same {P P' : Cell → List Addr → Prop} {items : List Cell} {owns : List (List Addr)}
    (hP : ∀ item own, P item own → Same m m' own → P' item own) (h : List.Forall₂ P items owns)
    (hsame : Same m m' owns.flatten) : List.Forall₂ P' items owns := by
  induction h with
  | nil => exact .nil
  | cons hitem _ ih =>
      refine .cons (hP _ _ hitem fun a ha => hsame a ?_) (ih fun a ha => hsame a ?_)
      · exact List.mem_append_left _ ha
      · exact List.mem_append_right _ ha

theorem IsArray.same {P P' : Cell → List Addr → Prop}
    (hP : ∀ item own, P item own → Same m m' own → P' item own) (h : IsArray P m cell own)
    (hsame : Same m m' own) : IsArray P' m' cell own := by
  refine h.imp id ?_
  rintro ⟨a, items, owns, hcell, hitems, hshape, rfl⟩
  refine ⟨a, items, owns, hcell, (hsame a List.mem_cons_self).trans hitems,
    forall₂_same hP hshape fun b hb => hsame b (List.mem_cons_of_mem a hb), rfl⟩

/-- A shape depends on the blocks of its option only. -/
theorem HasShape.same {dimensions : Nat} (h : HasShape m type dimensions cell own)
    (hsame : Same m m' own) : HasShape m' type dimensions cell own := by
  induction dimensions generalizing cell own with
  | zero =>
      cases type with
      | str => exact IsString.same h hsame
      | listStr => exact IsArray.same (fun _ _ htext => htext.same) h hsame
      | int64 | ptr | uint64 | size | bool => exact h
  | succ dimensions ih => exact IsArray.same (fun _ _ hitem hsame => ih hitem hsame) h hsame

/-! ## What a parse function does -/

/-- The function returns, touches the blocks of its option only, returns zero
exactly if `ok`, and has then left a value for which `P` holds. -/
def Parses (m : Memory Block) (own : List Addr) (ok : Prop) (P : Memory Block → Cell → List Addr → Prop)
    (parsed : Parsed) : Prop :=
  ∃ ret cell m' own', parsed = some (ret, cell, m') ∧ 0 ≤ ret ∧ (ret = 0 ↔ ok) ∧ Framed m own m' own'
    ∧ (ok → P m' cell own')

variable {P : Memory Block → Cell → List Addr → Prop} {ok : Prop} {parsed : Parsed}

theorem Parses.leak (h : Parses m [] ok P parsed) (howns : Owns m own) : Parses m own ok P parsed := by
  obtain ⟨ret, cell, m', own', hres, hret, hok, hframe, hP⟩ := h
  exact ⟨ret, cell, m', own', hres, hret, hok, hframe.leak howns, hP⟩

/-- A word that can be freed: `NULL` or a block of the owner -/
def Heads (cell : Cell) (own : List Addr) : Prop :=
  ∃ p, cell.word = .pointer p ∧ ∀ a ∈ p, a ∈ own

theorem freeWord_frame (h : Heads cell own) (howns : Owns m own) :
    ∃ m', freeWord cell.word m = some m' ∧ Framed m own m' [] := by
  obtain ⟨p, hword, hp⟩ := h
  rw [hword]
  cases p with
  | none => exact ⟨m, rfl, (Framed.refl howns).forget (List.nil_sublist own)⟩
  | some a =>
      obtain ⟨m', hfree, hframe⟩ := free_frame howns (hp a rfl)
      exact ⟨m', hfree, hframe.forget (List.nil_sublist _)⟩

/-! ## Strings -/

theorem IsText.heads (h : IsText m cell own) : Heads cell own := by
  obtain ⟨a, -, hword, -, rfl⟩ := h
  exact ⟨some a, hword, fun b hb => List.mem_singleton.mpr (Option.some.inj hb).symm⟩

theorem IsString.heads (h : IsString m cell own) : Heads cell own := by
  rcases h with ⟨hword, -⟩ | htext
  · exact ⟨none, hword, fun _ ha => absurd ha (Option.not_mem_none _)⟩
  · exact htext.heads

theorem stringParseStr_parses (value : List Char) (h : Heads cell own) (howns : Owns m own) :
    Parses m own True (fun m' cell' own' => IsString m' cell' own' ∧ cell'.count = cell.count
      ∧ (value = [] ↔ cell'.word = .pointer none)) (stringParseStr al cell value m) := by
  obtain ⟨m', hfree, hframe⟩ := freeWord_frame h howns
  rw [stringParseStr, hfree, Option.bind_eq_bind, Option.bind_some]
  by_cases hvalue : value = []
  · rw [if_pos hvalue]
    exact ⟨0, _, _, _, rfl, Int.le_refl 0, iff_of_true rfl trivial, hframe, fun _ =>
      ⟨Or.inl ⟨rfl, rfl⟩, rfl, iff_of_true hvalue rfl⟩⟩
  · rw [if_neg hvalue]
    have halloc := alloc_frame al (Block.text value) hframe.owns
    refine ⟨0, _, _, _, rfl, Int.le_refl 0, iff_of_true rfl trivial, hframe.trans halloc, fun _ =>
      ⟨Or.inr ⟨_, value, rfl, lookup_alloc al _ m', rfl⟩, rfl, ?_⟩⟩
    exact iff_of_false hvalue fun heq => nomatch Word.pointer.inj heq

theorem tomlParseStr_parses (datum : Option (List Char)) (h : Heads cell own) (howns : Owns m own) :
    Parses m own (datum.isSome = true) IsString (tomlParseStr al datum cell m) := by
  cases datum with
  | none => exact ⟨1, cell, m, own, rfl, by decide, by decide, Framed.refl howns, fun h => nomatch h⟩
  | some s =>
      have halloc := alloc_frame al (Block.text s) howns
      have hdatum := lookup_alloc al (Block.text s) m
      rw [tomlParseStr]
      generalize alloc al (Block.text s) m = p at halloc hdatum
      obtain ⟨t, m₁⟩ := p
      obtain ⟨ht, -⟩ := List.nodup_cons.mp halloc.owns.nodup
      obtain ⟨m₂, hfree, hframe⟩ := freeWord_frame h (halloc.owns.sublist (List.sublist_cons_self t own))
      have hall : Framed m own m₂ [t] :=
        (halloc.perm (List.perm_append_singleton t own).symm).trans
          (hframe.beside (halloc.owns.perm (List.perm_append_singleton t own).symm))
      dsimp only
      rw [hfree, Option.bind_eq_bind, Option.bind_some]
      by_cases hs : s = []
      · obtain ⟨m₃, hfree₃, hframe₃⟩ := free_frame hall.owns List.mem_cons_self
        rw [if_pos hs, hfree₃, Option.bind_some]
        exact ⟨0, _, _, _, rfl, Int.le_refl 0, iff_of_true rfl rfl, hall.trans
          (hframe₃.forget (List.nil_sublist _)), fun _ => Or.inl ⟨rfl, rfl⟩⟩
      · rw [if_neg hs]
        refine ⟨0, _, _, _, rfl, Int.le_refl 0, iff_of_true rfl rfl, hall, fun _ => Or.inr ⟨t, s, rfl, ?_, rfl⟩⟩
        rw [hframe.kept t (halloc.owns.live t List.mem_cons_self) ht]
        exact hdatum

/-! ## The loop over the items -/

theorem getItem_at {items : List Cell} (h : m.lookup a = some (.cells items)) (i : Nat) :
    getItem a i m = items[i]? := by
  rw [getItem, h]

theorem setItem_at {items : List Cell} {i : Nat} (h : m.lookup a = some (.cells items))
    (hi : i < items.length) (item : Cell) :
    setItem a i item m = write a (.cells (items.set i item)) m := by
  rw [setItem, h]
  exact if_pos hi

section Loop

variable {γ : Type} {parse : γ → Cell → Memory Block → Parsed} {fits : γ → Prop} {I : Cell → Prop}

/-- The items in front have their shape, and those behind are still as they
were allocated. -/
theorem fillItems_fills (hsame : ∀ m m' cell own, P m cell own → Same m m' own → P m' cell own)
    (hparse : ∀ v cell m, I cell → Parses m [] (fits v) P (parse v cell m)) (vs : List γ) :
    ∀ (m : Memory Block) (done rest : List Cell) (owns : List (List Addr)),
      m.lookup a = some (.cells (done ++ rest)) → rest.length = vs.length → (∀ c ∈ rest, I c) →
      List.Forall₂ (P m) done owns → Owns m (a :: owns.flatten) →
      ∃ ret m' own', fillItems parse a vs done.length m = some (ret, m') ∧ 0 ≤ ret
        ∧ (ret = 0 ↔ ∀ v ∈ vs, fits v) ∧ Framed m (a :: owns.flatten) m' own'
        ∧ ((∀ v ∈ vs, fits v) → ∃ items owns', m'.lookup a = some (.cells items)
          ∧ items.length = done.length + vs.length ∧ List.Forall₂ (P m') items owns'
          ∧ own' = a :: owns'.flatten) := by
  induction vs with
  | nil =>
      intro m done rest owns hlookup hlen _ hdone howns
      obtain rfl := List.length_eq_zero_iff.mp hlen
      rw [List.append_nil] at hlookup
      exact ⟨0, m, _, rfl, Int.le_refl 0, iff_of_true rfl fun v hv => absurd hv List.not_mem_nil,
        Framed.refl howns, fun _ => ⟨done, owns, hlookup, rfl, hdone, rfl⟩⟩
  | cons v vs ih =>
      intro m done rest owns hlookup hlen hpre hdone howns
      obtain ⟨c, rest, rfl⟩ := List.exists_cons_of_length_eq_add_one hlen
      obtain ⟨ret, item, m₁, new, hres, hret, hfits, hframe, hP⟩ :=
        hparse v c m (hpre c List.mem_cons_self)
      have hmem := howns.live
      have hkept : ∀ b ∈ m, m₁.lookup b = m.lookup b := fun b hb => hframe.kept b hb List.not_mem_nil
      have hbeside : Framed m (a :: owns.flatten) m₁ (new ++ a :: owns.flatten) := hframe.beside howns
      have hlookup₁ : m₁.lookup a = some (.cells (done ++ c :: rest)) :=
        (hkept a (hmem a List.mem_cons_self)).trans hlookup
      -- the item is written back
      obtain ⟨m₂, hwrite, hframe₂, hlookup₂, hother⟩ :=
        write_frame (.cells (done ++ item :: rest)) hbeside.owns
          (List.mem_append_right new List.mem_cons_self)
      have hset : setItem a done.length item m₁ = some m₂ := by
        rw [setItem_at hlookup₁ (by simp), List.set_append_right _ _ (Nat.le_refl _), Nat.sub_self,
          List.set_cons_zero]
        exact hwrite
      have hstep : fillItems parse a (v :: vs) done.length m
          = if ret = 0 then fillItems parse a vs (done.length + 1) m₂ else some (1, m₂) := by
        rw [fillItems, getItem_at hlookup, List.getElem?_append_right (Nat.le_refl _), Nat.sub_self,
          List.getElem?_cons_zero]
        simp only [Option.bind_eq_bind, Option.bind_some, hres, hset]
      have hall : Framed m (a :: owns.flatten) m₂ (new ++ a :: owns.flatten) := hbeside.trans hframe₂
      rw [hstep]
      by_cases hzero : ret = 0
      · have hv : fits v := hfits.mp hzero
        have hperm : (new ++ a :: owns.flatten).Perm (a :: (owns ++ [new]).flatten) := by
          rw [List.flatten_append, List.flatten_singleton]
          exact List.perm_append_comm
        have hnodup := (hall.perm hperm).owns.nodup
        rw [List.nodup_cons, List.flatten_append, List.flatten_singleton] at hnodup
        have hother' : ∀ b ∈ owns.flatten ++ new, m₂.lookup b = m₁.lookup b := fun b hb =>
          hother b (ne_of_mem_of_not_mem hb hnodup.1)
        have hdone₂ : List.Forall₂ (P m₂) (done ++ [item]) (owns ++ [new]) := by
          refine List.rel_append (forall₂_same (hsame m m₂) hdone fun b hb => ?_)
            (.cons (hsame m₁ m₂ item new (hP hv) fun b hb => ?_) .nil)
          · rw [hother' b (List.mem_append_left new hb), hkept b (hmem b (List.mem_cons_of_mem a hb))]
          · exact hother' b (List.mem_append_right _ hb)
        have hnext := ih m₂ (done ++ [item]) rest (owns ++ [new])
          (by rw [List.append_assoc]; exact hlookup₂) (Nat.succ.inj hlen)
          (fun c hc => hpre c (List.mem_cons_of_mem _ hc)) hdone₂ (hall.perm hperm).owns
        rw [List.length_append, List.length_singleton] at hnext
        obtain ⟨ret', m', own', hres', hret', hfits', hframe', hitems⟩ := hnext
        rw [if_pos hzero]
        refine ⟨ret', m', own', hres', hret', ?_, (hall.perm hperm).trans hframe', fun hvs => ?_⟩
        · rw [hfits', List.forall_mem_cons]
          exact (and_iff_right hv).symm
        · obtain ⟨items, owns', hitems, hlength, hshape, hown'⟩ :=
            hitems fun w hw => hvs w (List.mem_cons_of_mem v hw)
          refine ⟨items, owns', hitems, ?_, hshape, hown'⟩
          rw [hlength, List.length_cons]
          omega
      · rw [if_neg hzero]
        have hnot : ¬ ∀ w ∈ v :: vs, fits w := fun h => hzero (hfits.mpr (h v List.mem_cons_self))
        exact ⟨1, m₂, _, rfl, by decide, iff_of_false (by decide) hnot, hall, fun h => absurd h hnot⟩

/-- A block is allocated and its items are filled. -/
theorem fillItems_parses (hsame : ∀ m m' cell own, P m cell own → Same m m' own → P m' cell own)
    (hparse : ∀ v cell m, I cell → Parses m [] (fits v) P (parse v cell m)) (vs : List γ) {first : Cell}
    (hfirst : I first) (m : Memory Block) :
    Parses m [] (∀ v ∈ vs, fits v) (fun m' => IsArray (P m') m')
      (do
        let (a, m) := alloc al (.cells (List.replicate vs.length first)) m
        let (ret, m) ← fillItems parse a vs 0 m
        some (ret, ⟨.pointer (some a), vs.length⟩, m)) := by
  have halloc := alloc_frame al (Block.cells (List.replicate vs.length first)) (Owns.nil (m := m))
  have hlookup := lookup_alloc al (Block.cells (List.replicate vs.length first)) m
  generalize alloc al (Block.cells (List.replicate vs.length first)) m = p at halloc hlookup
  obtain ⟨a, m₁⟩ := p
  obtain ⟨ret, m', own', hres, hret, hfits, hframe, hitems⟩ :=
    fillItems_fills hsame hparse vs m₁ [] _ [] hlookup List.length_replicate
      (fun c hc => (List.eq_of_mem_replicate hc).symm ▸ hfirst) .nil halloc.owns
  rw [List.length_nil] at hres
  refine ⟨ret, ⟨.pointer (some a), vs.length⟩, m', own', ?_, hret, hfits, halloc.trans hframe, fun h => ?_⟩
  · dsimp only
    rw [hres]
    rfl
  · obtain ⟨items, owns', hitems, hlength, hshape, hown'⟩ := hitems h
    refine Or.inr ⟨a, items, owns', ?_, hitems, hshape, hown'⟩
    rw [hlength, List.length_nil, Nat.zero_add]

end Loop

/-! ## Numbers -/

/-- What a parse function of a number can give -/
def NumberParsed (parsed : Int × Value) : Prop := 0 ≤ parsed.1 ∧ (parsed.1 = 0 → ∃ i, parsed.2 = .int i)

theorem numberParsed_zero (i : Int) : NumberParsed (0, .int i) := ⟨Int.le_refl 0, fun _ => ⟨i, rfl⟩⟩

theorem numberParsed_one (v : Value) : NumberParsed (1, v) :=
  ⟨Int.zero_le_ofNat 1, fun h => absurd h Int.one_ne_zero⟩

theorem numberParsed_ite {c : Prop} [Decidable c] {i : Int} {v : Value} :
    NumberParsed (if c then (0, .int i) else (1, v)) := by
  split
  · exact numberParsed_zero i
  · exact numberParsed_one v

theorem tomlParseNumber_parsed (type : SpecType) (table : TomlTable) (name : List Char) :
    NumberParsed (tomlParseNumber type table name) := by
  cases type with
  | int64 =>
      rw [tomlParseNumber, tomlTableParseInt64]
      split
      · exact numberParsed_zero _
      · exact numberParsed_one _
  | ptr =>
      rw [tomlParseNumber, tomlTableParsePtr]
      split
      · exact numberParsed_zero _
      · exact numberParsed_one _
  | uint64 =>
      rw [tomlParseNumber, tomlTableParseUint64]
      split
      · exact numberParsed_ite
      · exact numberParsed_one _
  | size =>
      rw [tomlParseNumber, tomlTableParseSize]
      split
      · exact numberParsed_ite
      · exact numberParsed_one _
  | bool =>
      rw [tomlParseNumber, tomlTableParseBool]
      split
      · exact numberParsed_zero _
      · exact numberParsed_one _
  | str | listStr => exact numberParsed_one _

theorem stringParse_parsed (hstr : type ≠ .str) (value : List Char) :
    NumberParsed (stringParse (.int 0) value type) := by
  cases type with
  | int64 =>
      rw [stringParse, stringParseInt64]
      split
      · exact numberParsed_one _
      · exact numberParsed_zero _
  | uint64 =>
      rw [stringParse, stringParseUint64]
      split
      · exact numberParsed_one _
      · exact numberParsed_zero _
  | ptr =>
      rw [stringParse]
      unfold stringParsePtr
      split
      · dsimp only
        split
        · exact numberParsed_one _
        · exact numberParsed_zero _
      · exact numberParsed_one _
  | size => exact numberParsed_ite
  | bool =>
      rw [stringParse, stringParseBool]
      split
      · exact numberParsed_zero _
      · exact numberParsed_ite
  | str => exact absurd rfl hstr
  | listStr => exact numberParsed_one _

/-- Nothing but the first word of the cell changes. -/
theorem storeNumber_parses {p : Int × Value} (hp : NumberParsed p) (cell : Cell) :
    Parses m [] (p.1 = 0) (fun _ => IsNumber) (some ((storeNumber p cell).1, (storeNumber p cell).2, m)) := by
  obtain ⟨ret, v⟩ := p
  obtain ⟨hret, hnumber⟩ := hp
  by_cases hzero : ret = 0
  · obtain rfl : ret = 0 := hzero
    obtain ⟨i, hi⟩ := hnumber rfl
    obtain rfl : v = .int i := hi
    exact ⟨0, _, m, [], rfl, hret, Iff.rfl, Framed.refl Owns.nil, fun _ => ⟨⟨i, rfl⟩, rfl⟩⟩
  · have hstore : storeNumber (ret, v) cell = (ret, cell) := by
      unfold storeNumber
      split
      · next heq => exact absurd (Prod.mk.inj heq).1 hzero
      · next heq => rw [← (Prod.mk.inj heq).1]
    rw [hstore]
    exact ⟨ret, cell, m, [], rfl, hret, Iff.rfl, Framed.refl Owns.nil, fun h => absurd h hzero⟩

/-! ## Values that fit -/

/-- An item of this type can be made of the value. -/
def ItemFits (type : SpecType) (v : TomlValue) : Prop :=
  match type with
  | .str => ∃ s, v = .string s
  | .listStr => False
  | _ => (tomlParseNumber type (itemTable v) []).1 = 0

/-- The value has the dimensions, and its items fit. -/
def ArrayFits (type : SpecType) : Nat → TomlValue → Prop
  | 0, v => ItemFits type v
  | dimensions + 1, .array items => ∀ v ∈ items, ArrayFits type dimensions v
  | _ + 1, _ => False

/-- The value is an array of strings. -/
def ListFits (v : TomlValue) : Prop := ∃ items, v = .array items ∧ ∀ w ∈ items, ItemFits .str w

theorem tomlStringIn_isSome (table : TomlTable) (name : List Char) {v : TomlValue} (h : table name = some v) :
    (tomlStringIn table name).isSome = true ↔ ItemFits .str v := by
  rw [tomlStringIn, h]
  cases v with
  | string s => exact iff_of_true rfl ⟨s, rfl⟩
  | int i | bool b | array items | other =>
      refine iff_of_false Bool.false_ne_true ?_
      rintro ⟨s, hs⟩
      nomatch hs

/-- The name only leads to the value. -/
theorem tomlParseNumber_itemTable {table : TomlTable} {name : List Char} {v : TomlValue}
    (h : table name = some v) : tomlParseNumber type table name = tomlParseNumber type (itemTable v) [] := by
  have hitem : itemTable v [] = table name := h.symm
  cases type <;>
    simp only [tomlParseNumber, tomlTableParseInt64, tomlTableParsePtr, tomlTableParseSize,
      tomlTableParseUint64, tomlTableParseBool, tomlIntIn, tomlStringIn, tomlBoolIn, hitem]

theorem Parses.congr {ok' : Prop} (h : Parses m own ok P parsed) (hok : ok ↔ ok') :
    Parses m own ok' P parsed := propext hok ▸ h

/-! ## Arrays and lists -/

theorem zeroed_heads : Heads (zeroed .str) [] := ⟨none, rfl, fun _ ha => absurd ha (Option.not_mem_none _)⟩

theorem parseItem_parses (v : TomlValue) (m : Memory Block) :
    Parses m [] (ItemFits type v) (fun m' => HasShape m' type 0) (parseItem al type v (zeroed type) m) := by
  cases type with
  | str =>
      exact (tomlParseStr_parses _ zeroed_heads Owns.nil).congr (tomlStringIn_isSome (itemTable v) [] rfl)
  | listStr =>
      exact ⟨1, _, m, [], rfl, Int.zero_le_ofNat 1, iff_of_false Int.one_ne_zero id, Framed.refl Owns.nil,
        fun h => nomatch h⟩
  | int64 | ptr | uint64 | size | bool => exact storeNumber_parses (tomlParseNumber_parsed _ _ _) _

theorem configParseArrayInternal_parses (type : SpecType) (d : Nat) :
    ∀ (v : TomlValue) (cell : Cell) (m : Memory Block),
      Parses m [] (ArrayFits type (d + 1) v) (fun m' => HasShape m' type (d + 1))
        (configParseArrayInternal al junk type (d + 1) v cell m) := by
  have hsame : ∀ (d : Nat) (m m' : Memory Block) (cell : Cell) (own : List Addr),
      HasShape m type d cell own → Same m m' own → HasShape m' type d cell own := fun _ _ _ _ _ h hs => h.same hs
  induction d with
  | zero =>
      intro v cell m
      cases v with
      | array items =>
          exact fillItems_parses (hsame 0)
            (fun v c m hc => hc ▸ parseItem_parses v m) items rfl m
      | int i | string s | bool b | other =>
          exact ⟨1, cell, m, [], rfl, Int.zero_le_ofNat 1, iff_of_false Int.one_ne_zero id,
            Framed.refl Owns.nil, fun h => nomatch h⟩
  | succ d ih =>
      intro v cell m
      cases v with
      | array items =>
          exact fillItems_parses (I := fun _ => True) (hsame (d + 1))
            (fun v c m _ => ih v c m) items trivial m
      | int i | string s | bool b | other =>
          exact ⟨1, cell, m, [], rfl, Int.zero_le_ofNat 1, iff_of_false Int.one_ne_zero id,
            Framed.refl Owns.nil, fun h => nomatch h⟩

/-! ## Lists of strings -/

theorem tomlStringDup_parses (v : TomlValue) (cell : Cell) (m : Memory Block) :
    Parses m [] (ItemFits .str v) IsText (tomlStringDup al v cell m) := by
  have hdatum := tomlStringIn_isSome (itemTable v) [] rfl
  rw [tomlStringDup]
  generalize tomlStringIn (itemTable v) [] = datum at hdatum
  cases datum with
  | none =>
      have hnot : ¬ ItemFits .str v := fun h => Bool.false_ne_true (hdatum.mpr h)
      exact ⟨1, cell, m, [], rfl, Int.zero_le_ofNat 1, iff_of_false Int.one_ne_zero hnot,
        Framed.refl Owns.nil, fun h => absurd h hnot⟩
  | some s =>
      dsimp only
      have hframe₁ := alloc_frame al (Block.text s) (Owns.nil (m := m))
      generalize alloc al (Block.text s) m = p at hframe₁
      obtain ⟨datum, m₁⟩ := p
      have hframe₂ := alloc_frame al (Block.text s) hframe₁.owns
      have hlookup := lookup_alloc al (Block.text s) m₁
      generalize alloc al (Block.text s) m₁ = p at hframe₂ hlookup
      obtain ⟨copy, m₂⟩ := p
      have hnodup : copy ≠ datum := by
        have hcopy := (List.nodup_cons.mp hframe₂.owns.nodup).1
        exact fun heq => hcopy (heq ▸ List.mem_cons_self)
      -- the datum is freed on its own
      obtain ⟨m₃, hfree, hframe₃⟩ := free_frame (hframe₂.owns.sublist (List.sublist_cons_self copy [datum]))
        List.mem_cons_self
      have hcopy : m₃.lookup copy = some (.text s) := by
        rw [hframe₃.kept copy (hframe₂.owns.live copy List.mem_cons_self)
          (mt List.mem_singleton.mp hnodup)]
        exact hlookup
      have hperm : [copy, datum].Perm ([datum] ++ [copy]) := List.Perm.swap datum copy []
      have hall : Framed m [] m₃ [copy] :=
        (hframe₁.trans (hframe₂.perm hperm)).trans
          ((hframe₃.forget (List.nil_sublist _)).beside (hframe₂.owns.perm hperm))
      refine ⟨0, { cell with word := .pointer (some copy) }, m₃, [copy], ?_, Int.le_refl 0,
        iff_of_true rfl (hdatum.mp rfl), hall, fun _ => ⟨copy, s, rfl, hcopy, rfl⟩⟩
      rw [hfree]
      rfl

/-- The strings of a list are freed one after the other. -/
theorem freeItems_frame {items : List Cell} {owns : List (List Addr)} {rest : List Addr} :
    ∀ {m : Memory Block}, List.Forall₂ (IsText m) items owns → Owns m (owns.flatten ++ rest) →
      ∃ m', items.foldlM (fun m item => freeWord item.word m) m = some m'
        ∧ Framed m (owns.flatten ++ rest) m' rest := by
  induction items generalizing owns with
  | nil =>
      intro m h howns
      cases h
      exact ⟨m, rfl, Framed.refl howns⟩
  | cons item items ih =>
      intro m h howns
      obtain ⟨own, owns, htext, hitems, rfl⟩ := List.forall₂_cons_left_iff.mp h
      rw [List.flatten_cons, List.append_assoc] at howns ⊢
      obtain ⟨m₁, hfree, hframe⟩ := freeWord_frame htext.heads (howns.sublist (List.sublist_append_left own _))
      have hbeside := hframe.beside howns
      have hitems₁ : List.Forall₂ (IsText m₁) items owns := by
        refine forall₂_same (fun _ _ htext => htext.same) hitems fun a ha => ?_
        have ha' : a ∈ owns.flatten ++ rest := List.mem_append_left rest ha
        exact hframe.kept a (howns.live a (List.mem_append_right own ha'))
          fun hown => (List.nodup_append'.mp howns.nodup).2.2 hown ha'
      obtain ⟨m', hfold, hframe'⟩ := ih hitems₁ hbeside.owns
      refine ⟨m', ?_, hbeside.trans hframe'⟩
      rw [List.foldlM_cons, hfree]
      exact hfold

theorem freeStrings_frame (h : IsArray (IsText m) m cell own) (howns : Owns m own) :
    ∃ m', freeStrings cell m = some m' ∧ Framed m own m' [] := by
  rcases h with ⟨rfl, rfl⟩ | ⟨a, items, owns, rfl, hlookup, hitems, rfl⟩
  · exact ⟨m, rfl, Framed.refl howns⟩
  · have hperm : (a :: owns.flatten).Perm (owns.flatten ++ [a]) :=
      (List.perm_append_singleton a owns.flatten).symm
    obtain ⟨m₁, hfold, hframe⟩ := freeItems_frame hitems (howns.perm hperm)
    obtain ⟨m', hfree, hframe'⟩ := free_frame hframe.owns List.mem_cons_self
    refine ⟨m', ?_, ?_⟩
    · rw [freeStrings]
      dsimp only
      rw [hlookup]
      dsimp only
      rw [if_pos (Nat.le_refl _), List.take_length, hfold]
      exact hfree
    · exact (Framed.refl howns |>.perm hperm).trans (hframe.trans (hframe'.forget (List.nil_sublist _)))

theorem tomlTableParseListStr_parses {table : TomlTable} {name : List Char} {items : List TomlValue}
    (htable : table name = some (.array items)) (h : HasShape m .listStr 0 cell own) (howns : Owns m own) :
    Parses m own (ListFits (.array items)) (fun m' => HasShape m' .listStr 0)
      (tomlTableParseListStr al junk table name cell m) := by
  obtain ⟨m₁, hfree, hframe⟩ := freeStrings_frame h howns
  obtain ⟨ret, cell', m', own', hres, hret, hfits, hframe', hshape⟩ :=
    fillItems_parses (P := IsText) (I := fun _ => True)
      (fun _ _ _ _ htext hsame => htext.same hsame) (fun v c m _ => tomlStringDup_parses v c m) items trivial m₁
  have hlist : (∀ v ∈ items, ItemFits .str v) ↔ ListFits (.array items) := by
    refine ⟨fun hall => ⟨items, rfl, hall⟩, ?_⟩
    rintro ⟨items', heq, hall⟩
    rwa [TomlValue.array.inj heq]
  refine ⟨ret, cell', m', own', ?_, hret, hfits.trans hlist, hframe.trans hframe', fun hok =>
    hshape (hlist.mpr hok)⟩
  rw [tomlTableParseListStr, hfree, Option.bind_eq_bind, Option.bind_some, htable]
  exact hres

/-! ## One option of the file -/

section Option

variable {μ : Type} {spec : ConfigSpec μ}

/-- The value of the file fits the option. -/
def SpecFits (spec : ConfigSpec μ) (v : TomlValue) : Prop :=
  if spec.dimensions = 0 ∧ spec.type = .listStr then ListFits v else ArrayFits spec.type spec.dimensions v

theorem configParseSingleElement_parses {table : TomlTable} {name : List Char} {v : TomlValue}
    (htable : table name = some v) (hlist : spec.type = .listStr → ∃ items, v = .array items)
    (hdim : spec.dimensions = 0) (h : HasShape m spec.type 0 cell own) (howns : Owns m own) :
    Parses m own (SpecFits spec v) (fun m' => HasShape m' spec.type 0)
      (configParseSingleElement al junk spec cell m table name) := by
  have hfits : spec.type ≠ .listStr → (ItemFits spec.type v ↔ SpecFits spec v) := by
    intro hne
    rw [SpecFits, if_neg fun hand => hne hand.2, hdim]
    rfl
  unfold configParseSingleElement
  generalize htype : spec.type = type at *
  cases type with
  | str =>
      refine (tomlParseStr_parses _ (IsString.heads h) howns).congr ?_
      rw [tomlStringIn_isSome table name htable, hfits (by decide)]
  | listStr =>
      obtain ⟨items, rfl⟩ := hlist rfl
      rw [SpecFits, if_pos ⟨hdim, htype⟩]
      exact tomlTableParseListStr_parses htable h howns
  | int64 | ptr | uint64 | size | bool =>
      refine ((storeNumber_parses (tomlParseNumber_parsed _ table name) cell).leak howns).congr ?_
      rw [← hfits (by decide), tomlParseNumber_itemTable htable]
      rfl

/-- An option is parsed as its dimensions say. -/
theorem configParseElement_parses {table : TomlTable} {name : List Char} {v : TomlValue}
    (htable : table name = some v)
    (hlist : spec.dimensions = 0 → spec.type = .listStr → ∃ items, v = .array items)
    (h : HasShape m spec.type spec.dimensions cell own) (howns : Owns m own) :
    Parses m own (SpecFits spec v) (fun m' => HasShape m' spec.type spec.dimensions)
      (configParseElement al junk spec v cell m table name) := by
  rw [configParseElement]
  by_cases hdim : spec.dimensions = 0
  · rw [if_pos hdim]
    rw [hdim] at h ⊢
    exact configParseSingleElement_parses htable (hlist hdim) hdim h howns
  · rw [if_neg hdim, SpecFits, if_neg fun hand => hdim hand.1]
    obtain ⟨d, hd⟩ := Nat.exists_eq_succ_of_ne_zero hdim
    rw [hd]
    exact (configParseArrayInternal_parses spec.type d v cell m).leak howns

end Option

end ConfigMemory

end Nosv
