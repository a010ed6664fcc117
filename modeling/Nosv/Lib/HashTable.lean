import Mathlib.Data.List.Nodup
import Mathlib.Logic.Function.Basic

/-!
# Hash tables with chains

A table has a chain of entries in each of its buckets. An entry goes to the
front of its chain whether or not its key is there already; a search and a
removal stop at the first entry with the key. A table whose keys are all
different behaves as a partial map from keys to values, whatever the hash
function. With keys that are there more than once it is a multimap: the
entries in the order of their insertion, the latest first (`Holds`), of
which each chain has those of its bucket.
-/

/-- The chains of a table, by bucket. -/
abbrev HashTable (ι κ α : Type*) := ι → List (κ × α)

namespace HashTable

variable {ι κ α : Type*}

def empty : HashTable ι κ α := fun _ => []

/-- No key is there twice. -/
def Distinct (t : HashTable ι κ α) : Prop := ∀ i, ((t i).map Prod.fst).Nodup

theorem distinct_empty : (empty : HashTable ι κ α).Distinct := fun _ => List.nodup_nil

variable [DecidableEq ι] [DecidableEq κ] (hash : κ → ι)

def insert (t : HashTable ι κ α) (k : κ) (a : α) : HashTable ι κ α :=
  Function.update t (hash k) ((k, a) :: t (hash k))

def search (t : HashTable ι κ α) (k : κ) : Option α :=
  ((t (hash k)).find? fun e => e.1 = k).map Prod.snd

/-- The table without the first entry of the key, if there is one. -/
def remove (t : HashTable ι κ α) (k : κ) : Option (HashTable ι κ α) :=
  if (t (hash k)).any (fun e => e.1 = k) then
    some (Function.update t (hash k) ((t (hash k)).eraseP fun e => e.1 = k))
  else none

variable {hash} {t t' : HashTable ι κ α} {k k' : κ} {a : α}

omit [DecidableEq ι] in
theorem search_eq_none : search hash t k = none ↔ k ∉ (t (hash k)).map Prod.fst := by
  simp only [search, Option.map_eq_none_iff, List.find?_eq_none, decide_eq_true_eq, List.mem_map,
    not_exists, not_and]

theorem search_insert :
    search hash (insert hash t k a) k' = if k' = k then some a else search hash t k' := by
  by_cases hk : k' = k
  · simp [search, insert, hk]
  · rw [if_neg hk, search, insert]
    by_cases hi : hash k' = hash k
    · rw [hi, Function.update_self, List.find?_cons_of_neg (by simpa using Ne.symm hk), search, hi]
    · rw [Function.update_of_ne hi, search]

theorem Distinct.insert (h : t.Distinct) (hnew : search hash t k = none) :
    (HashTable.insert hash t k a).Distinct := by
  intro i
  rw [HashTable.insert]
  by_cases hi : i = hash k
  · rw [hi, Function.update_self, List.map_cons, List.nodup_cons]
    exact ⟨search_eq_none.mp hnew, h _⟩
  · rw [Function.update_of_ne hi]
    exact h i

theorem remove_of_search (h : search hash t k = some a) : ∃ t', remove hash t k = some t' := by
  refine ⟨_, if_pos ?_⟩
  obtain ⟨e, he, -⟩ := Option.map_eq_some_iff.mp h
  have hkey := List.find?_some he
  exact List.any_eq_true.mpr ⟨e, List.mem_of_find?_eq_some he, hkey⟩

theorem Distinct.remove (h : t.Distinct) (hremove : remove hash t k = some t') : t'.Distinct := by
  obtain ⟨-, heq⟩ := Option.ite_none_right_eq_some.mp hremove
  cases heq
  intro i
  by_cases hi : i = hash k
  · rw [hi, Function.update_self]
    exact (h _).sublist (List.eraseP_sublist.map Prod.fst)
  · rw [Function.update_of_ne hi]
    exact h i

/-- Another key is found in a chain as before. -/
theorem find?_eraseP {l : List (κ × α)} (hne : k' ≠ k) :
    (l.eraseP fun e => e.1 = k).find? (fun e => e.1 = k') = l.find? fun e => e.1 = k' := by
  induction l with
  | nil => rfl
  | cons e l ih =>
      by_cases he : e.1 = k
      · rw [List.eraseP_cons_of_pos (by simpa using he),
          List.find?_cons_of_neg (by simpa [he] using hne.symm)]
      · rw [List.eraseP_cons_of_neg (by simpa using he), List.find?_cons, List.find?_cons, ih]

theorem search_remove (h : t.Distinct) (hremove : remove hash t k = some t') :
    search hash t' k' = if k' = k then none else search hash t k' := by
  obtain ⟨hany, heq⟩ := Option.ite_none_right_eq_some.mp hremove
  cases heq
  by_cases hk : k' = k
  · subst hk
    rw [if_pos rfl, search_eq_none, Function.update_self]
    -- the entry that goes is the only one with the key
    obtain ⟨x, hx, hxk⟩ := List.any_eq_true.mp hany
    obtain ⟨e, l₁, l₂, -, he, hl, herase⟩ :=
      List.exists_of_eraseP (p := fun e : κ × α => decide (e.1 = k')) hx hxk
    have hnodup := h (hash k')
    rw [hl, List.map_append, List.map_cons, List.nodup_append] at hnodup
    rw [herase, List.map_append, List.mem_append, not_or]
    obtain ⟨-, hright, hdisj⟩ := hnodup
    have hkey : e.1 = k' := by simpa using he
    rw [hkey] at hright hdisj
    exact ⟨fun hmem => hdisj _ hmem _ List.mem_cons_self rfl, (List.nodup_cons.mp hright).1⟩
  · rw [if_neg hk, search]
    by_cases hi : hash k' = hash k
    · rw [hi, Function.update_self, find?_eraseP hk, search, hi]
    · rw [Function.update_of_ne hi, search]

/-! ## A table as a multimap -/

/-- Each chain has the entries of its bucket, in their order. -/
def Holds (hash : κ → ι) (t : HashTable ι κ α) (es : List (κ × α)) : Prop :=
  ∀ i, t i = es.filter fun e => hash e.1 = i

variable {es : List (κ × α)} {e : κ × α} {i : ι} {rest : List (κ × α)}

omit [DecidableEq κ] in
theorem holds_empty : Holds hash (empty : HashTable ι κ α) [] := fun _ => rfl

omit [DecidableEq κ] in
theorem Holds.insert (h : Holds hash t es) (k : κ) (a : α) : Holds hash (insert hash t k a) ((k, a) :: es) := by
  intro i
  rw [HashTable.insert]
  by_cases hi : i = hash k
  · rw [hi, Function.update_self, List.filter_cons_of_pos (by simp), h]
  · rw [Function.update_of_ne hi, List.filter_cons_of_neg (by simpa using Ne.symm hi), h]

/-- A search finds the latest entry of the key. -/
theorem Holds.search (h : Holds hash t es) (k : κ) :
    search hash t k = (es.find? fun e => e.1 = k).map Prod.snd := by
  rw [HashTable.search, h (hash k), List.find?_filter]
  congr 2
  funext e
  by_cases he : e.1 = k
  · simp [he]
  · simp [he]

omit [DecidableEq κ] in
/-- Entries that are erased from the list, seen from one chain -/
theorem filter_eraseP {p q : κ × α → Bool} (hpq : ∀ e, p e = true → q e = true) :
    ∀ es : List (κ × α), (es.eraseP p).filter q = (es.filter q).eraseP p
  | [] => rfl
  | e :: es => by
      by_cases he : p e = true
      · rw [List.eraseP_cons_of_pos he, List.filter_cons_of_pos (hpq e he), List.eraseP_cons_of_pos he]
      · rw [List.eraseP_cons_of_neg he]
        by_cases hq : q e = true
        · rw [List.filter_cons_of_pos hq, List.filter_cons_of_pos hq, List.eraseP_cons_of_neg he,
            filter_eraseP hpq es]
        · rw [List.filter_cons_of_neg hq, List.filter_cons_of_neg hq, filter_eraseP hpq es]

omit [DecidableEq κ] in
theorem filter_eraseP_of_not {p q : κ × α → Bool} (hpq : ∀ e, p e = true → q e = false) :
    ∀ es : List (κ × α), (es.eraseP p).filter q = es.filter q
  | [] => rfl
  | e :: es => by
      by_cases he : p e = true
      · rw [List.eraseP_cons_of_pos he, List.filter_cons_of_neg (by simp [hpq e he])]
      · rw [List.eraseP_cons_of_neg he, List.filter_cons, List.filter_cons, filter_eraseP_of_not hpq es]

/-- A removal takes out the latest entry of the key. -/
theorem Holds.erase (h : Holds hash t es) (k : κ) :
    Holds hash (Function.update t (hash k) ((t (hash k)).eraseP fun e => e.1 = k)) (es.eraseP fun e => e.1 = k) := by
  intro i
  by_cases hi : i = hash k
  · rw [hi, Function.update_self, h (hash k), filter_eraseP]
    intro e he
    rw [of_decide_eq_true he]
    exact decide_eq_true rfl
  · rw [Function.update_of_ne hi, h i, filter_eraseP_of_not]
    intro e he
    rw [of_decide_eq_true he]
    exact decide_eq_false (Ne.symm hi)

omit [DecidableEq κ] in
/-- The first entry of a chain is one of the entries. -/
theorem Holds.pop (h : Holds hash t es) (hi : t i = e :: rest) :
    ∃ l₁ l₂, es = l₁ ++ e :: l₂ ∧ Holds hash (Function.update t i rest) (l₁ ++ l₂) := by
  have hfilter := h i
  rw [hi] at hfilter
  obtain ⟨l₁, l₂, hes, hl₁, he, hrest⟩ := List.filter_eq_cons_iff.mp hfilter.symm
  refine ⟨l₁, l₂, hes, fun j => ?_⟩
  have hl₁' : l₁.filter (fun e => hash e.1 = i) = [] := List.filter_eq_nil_iff.mpr hl₁
  by_cases hj : j = i
  · rw [hj, Function.update_self, List.filter_append, hl₁', List.nil_append, hrest]
  · have hother : (e :: l₂).filter (fun e => hash e.1 = j) = l₂.filter fun e => hash e.1 = j := by
      refine List.filter_cons_of_neg ?_
      rw [of_decide_eq_true he]
      simpa using Ne.symm hj
    rw [Function.update_of_ne hj, h j, hes, List.filter_append, List.filter_append, hother]

omit [DecidableEq κ] in
theorem Holds.nil (h : Holds hash t es) (hempty : ∀ i, t i = []) : es = [] := by
  cases es with
  | nil => rfl
  | cons e es =>
      have hfilter := h (hash e.1)
      rw [hempty, List.filter_cons_of_pos (by simp)] at hfilter
      cases hfilter

end HashTable
