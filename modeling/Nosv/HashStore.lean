import Nosv.Lib.HashTable
import Nosv.Lib.Places
import Nosv.Lib.SList

/-!
# The hash table

`generic/hashtable.h` with its entries in memory: the buckets and the list
of free entries are singly linked through the entries themselves.

A function returns `none` where the assertion of `hash` fails, where it
leaves the array of buckets, or where a loop over a list does not end; that
loop gets the number of entries as its fuel. `malloc` returns a new entry.
The function `hashword` is a parameter.
-/

namespace Nosv

/-- `hash_key_t`, a `uintptr_t` -/
abbrev HashKey := UInt64

abbrev EntryId := Nat

/-- A `hash_bucket_t` of the table -/
inductive HashList where
  | free
  | bucket (i : Nat)
  deriving DecidableEq, Repr

/-- The data is a pointer, and may be `NULL`. -/
structure HashEntry (α : Type*) where
  sleNext : Option EntryId
  key : HashKey
  data : Option α

structure HashStore (α : Type*) where
  nbkt : Int
  /-- the length of the array of buckets -/
  buckets : Nat
  first : HashList → Option EntryId
  entry : EntryId → HashEntry α
  /-- how many entries have been allocated; the next one gets this name -/
  allocated : Nat

namespace HashStore

variable {α : Type*} (hashword : HashKey → UInt32)

def hash (ht : HashStore α) (key : HashKey) : Option Nat :=
  if 0 < ht.nbkt then some ((hashword key).toNat % ht.nbkt.toNat) else none

def slistInsertHead (ht : HashStore α) (l : HashList) (he : EntryId) : HashStore α :=
  { ht with
    entry := Function.update ht.entry he { ht.entry he with sleNext := ht.first l }
    first := Function.update ht.first l (some he) }

/-- `SLIST_REMOVE_HEAD` of a list whose first entry is `he` -/
def slistRemoveHead (ht : HashStore α) (l : HashList) (he : EntryId) : HashStore α :=
  { ht with first := Function.update ht.first l (ht.entry he).sleNext }

def slistRemoveAfter (ht : HashStore α) (elm : EntryId) : HashStore α :=
  { ht with
    entry := Function.update ht.entry elm { ht.entry elm with
      sleNext := (ht.entry elm).sleNext.bind fun next => (ht.entry next).sleNext } }

def getFreeEntry (ht : HashStore α) : EntryId × HashStore α :=
  match ht.first .free with
  | some he => (he, ht.slistRemoveHead .free he)
  | none => (ht.allocated, { ht with allocated := ht.allocated + 1 })

/-- The loop of `ht_init` that allocates entries -/
def allocateEntries (ht : HashStore α) : Nat → HashStore α
  | 0 => ht
  | n + 1 => allocateEntries ({ ht with allocated := ht.allocated + 1 }.slistInsertHead .free ht.allocated) n

/-- The conversion of a `size_t` to `int`, which wraps around -/
def intOfSize (n : Nat) : Int := (n : Int).bmod 4294967296

def htInit (nbuckets nentries : Nat) (entry : EntryId → HashEntry α) : HashStore α :=
  allocateEntries ⟨intOfSize nbuckets, nbuckets, fun _ => none, entry, 0⟩ nentries

def htInsert (ht : HashStore α) (key : HashKey) (data : Option α) : Option (HashStore α) :=
  (ht.hash hashword key).bind fun i =>
    if i < ht.buckets then
      let (he, ht) := ht.getFreeEntry
      let ht := { ht with entry := Function.update ht.entry he { ht.entry he with key := key, data := data } }
      some (ht.slistInsertHead (.bucket i) he)
    else none

/-- The loop of `ht_search` -/
def searchFrom (ht : HashStore α) (key : HashKey) : Nat → Option EntryId → Option (Option α)
  | 0, _ => none
  | _ + 1, none => some none
  | fuel + 1, some he =>
      if (ht.entry he).key = key then some (ht.entry he).data
      else searchFrom ht key fuel (ht.entry he).sleNext

def htSearch (ht : HashStore α) (key : HashKey) : Option (Option α) :=
  (ht.hash hashword key).bind fun i =>
    if i < ht.buckets then ht.searchFrom key (ht.allocated + 1) (ht.first (.bucket i)) else none

/-- The loop of `ht_pop`, with `n` buckets to go: the first bucket from `i`
on that is not empty, and its first entry. -/
def firstBucket (ht : HashStore α) : Nat → Nat → Option (Option (Nat × EntryId))
  | 0, _ => some none
  | n + 1, i =>
      if i < ht.buckets then
        match ht.first (.bucket i) with
        | some he => some (some (i, he))
        | none => firstBucket ht n (i + 1)
      else none

/-- `ht_pop`; the number of buckets is compared as a `size_t`. -/
def htPop (ht : HashStore α) : Option (Option α × HashStore α) :=
  (ht.firstBucket (ht.nbkt % 18446744073709551616).toNat 0).map fun found =>
    match found with
    | none => (none, ht)
    | some (i, he) =>
        let ht := ht.slistRemoveHead (.bucket i) he
        let ht := ht.slistInsertHead .free he
        ((ht.entry he).data, ht)

/-- The loop of `ht_remove`: the entry with the key, and the one before it. -/
def findFrom (ht : HashStore α) (key : HashKey) :
    Nat → Option EntryId → Option EntryId → Option (Option (Option EntryId × EntryId))
  | 0, _, _ => none
  | _ + 1, _, none => some none
  | fuel + 1, prev, some he =>
      if (ht.entry he).key = key then some (some (prev, he))
      else findFrom ht key fuel (some he) (ht.entry he).sleNext

def htRemove (ht : HashStore α) (key : HashKey) : Option (Option α × HashStore α) :=
  (ht.hash hashword key).bind fun i =>
    if i < ht.buckets then
      match ht.first (.bucket i) with
      | none => some (none, ht)
      | some he =>
          if (ht.entry he).key = key then
            let ht := ht.slistRemoveHead (.bucket i) he
            let ht := ht.slistInsertHead .free he
            some ((ht.entry he).data, ht)
          else
            (ht.findFrom key (ht.allocated + 1) none (some he)).bind fun found =>
              match found with
              | none => some (none, ht)
              | some (none, _) => none
              | some (some prev, he) =>
                  let ht := ht.slistRemoveAfter prev
                  let ht := ht.slistInsertHead .free he
                  some ((ht.entry he).data, ht)
    else none

/-! ## The lists of entries -/

def next (ht : HashStore α) (e : EntryId) : Option EntryId := (ht.entry e).sleNext

def content (ht : HashStore α) (e : EntryId) : HashKey × Option α := ((ht.entry e).key, (ht.entry e).data)

def bucketOf (ht : HashStore α) (key : HashKey) : Nat := (hashword key).toNat % ht.nbkt.toNat

/-- The entries `lists` are in the lists of the table, and each entry that
has been allocated is in one of them, but for the one that is `out`. -/
structure Rep (ht : HashStore α) (lists : HashList → List EntryId) (out : Option EntryId) : Prop where
  nbkt : 0 < ht.nbkt
  buckets : ht.nbkt ≤ ht.buckets
  list : ∀ l, SList.IsSList ht.next (ht.first l) (lists l)
  distinct : Places.Distinct fun l => (lists l : Multiset EntryId)
  outside : ∀ e, out = some e → ∀ l, e ∉ lists l
  allocated : ∀ e, (∃ l, e ∈ lists l) ∨ out = some e ↔ e < ht.allocated
  hashed : ∀ i, ∀ e ∈ lists (.bucket i), ht.bucketOf hashword (ht.entry e).key = i

/-- The chains of the buckets -/
def table (ht : HashStore α) (lists : HashList → List EntryId) : HashTable Nat HashKey (Option α) := fun i =>
  (lists (.bucket i)).map ht.content

variable {hashword} {ht ht' : HashStore α} {lists : HashList → List EntryId} {out : Option EntryId} {l : HashList}
  {e he : EntryId} {rest l₁ l₂ : List EntryId} {key : HashKey} {data : Option α} {i : Nat}

theorem Rep.nodup (h : ht.Rep hashword lists out) (l : HashList) : (lists l).Nodup :=
  Multiset.coe_nodup.mp (h.distinct.nodup l)

theorem Rep.bucketOf_lt (h : ht.Rep hashword lists out) (key : HashKey) : ht.bucketOf hashword key < ht.buckets := by
  have hpos := h.nbkt
  have hle := h.buckets
  have hlt : ht.bucketOf hashword key < ht.nbkt.toNat := Nat.mod_lt _ (by omega)
  omega

theorem Rep.hash_eq (h : ht.Rep hashword lists out) (key : HashKey) :
    ht.hash hashword key = some (ht.bucketOf hashword key) := if_pos h.nbkt

/-- An entry is in one list, or in none. -/
theorem Rep.list_unique (h : ht.Rep hashword lists out) {l l' : HashList} (he : e ∈ lists l) (he' : e ∈ lists l') :
    l = l' := h.distinct.inj (Multiset.mem_coe.mpr he) (Multiset.mem_coe.mpr he')

/-- No list is longer than there are entries. -/
theorem Rep.length_le (h : ht.Rep hashword lists out) (l : HashList) : (lists l).length ≤ ht.allocated := by
  have hsub : lists l ⊆ List.range ht.allocated := fun e he =>
    List.mem_range.mpr ((h.allocated e).mp (Or.inl ⟨l, he⟩))
  have hle := ((h.nodup l).subperm hsub).length_le
  rwa [List.length_range] at hle

/-- An entry is taken out of its list. -/
theorem Rep.takeOut (h : ht.Rep hashword lists none) (hperm : (lists l).Perm (he :: rest))
    (hnbkt : ht'.nbkt = ht.nbkt) (hbuckets : ht'.buckets = ht.buckets) (hallocated : ht'.allocated = ht.allocated)
    (hkey : ∀ e, (ht'.entry e).key = (ht.entry e).key)
    (hlist : ∀ l', SList.IsSList ht'.next (ht'.first l') (Function.update lists l rest l')) :
    ht'.Rep hashword (Function.update lists l rest) (some he) := by
  have hadd : (fun l' => (lists l' : Multiset EntryId))
      = Places.add (fun l' => (Function.update lists l rest l' : Multiset EntryId)) l he := by
    funext l'
    by_cases hl : l' = l
    · subst hl
      rw [Places.add_self, Function.update_self, Multiset.cons_coe]
      exact Multiset.coe_eq_coe.mpr hperm
    · rw [Places.add_ne hl, Function.update_of_ne hl]
  have hdistinct := h.distinct
  rw [hadd] at hdistinct
  obtain ⟨hdistinct, habsent⟩ := hdistinct.of_add
  have hmem : ∀ e l', e ∈ lists l' ↔ (l' = l ∧ e = he) ∨ e ∈ Function.update lists l rest l' := fun e l' => by
    rw [← Multiset.mem_coe, show (lists l' : Multiset EntryId) = _ from congrFun hadd l', Places.mem_add,
      Multiset.mem_coe]
  refine ⟨hnbkt ▸ h.nbkt, by rw [hnbkt, hbuckets]; exact h.buckets, hlist, hdistinct, ?_, fun e => ?_,
    fun i e hin => ?_⟩
  · rintro e ⟨⟩ l' hin
    exact habsent l' (Multiset.mem_coe.mpr hin)
  · rw [hallocated, ← h.allocated e]
    constructor
    · rintro (⟨l', hin⟩ | heq)
      · exact Or.inl ⟨l', (hmem e l').mpr (Or.inr hin)⟩
      · exact Or.inl ⟨l, (hmem e l).mpr (Or.inl ⟨rfl, (Option.some.inj heq).symm⟩)⟩
    · rintro (⟨l', hin⟩ | heq)
      · rcases (hmem e l').mp hin with ⟨-, rfl⟩ | hin
        · exact Or.inr rfl
        · exact Or.inl ⟨l', hin⟩
      · cases heq
  · rw [bucketOf, hkey, hnbkt]
    exact h.hashed i e ((hmem e _).mpr (Or.inr hin))

theorem Rep.removeHead (h : ht.Rep hashword lists none) (hl : lists l = he :: rest) :
    (ht.slistRemoveHead l he).Rep hashword (Function.update lists l rest) (some he) := by
  refine h.takeOut (by rw [hl]) rfl rfl rfl (fun _ => rfl) fun l' => ?_
  by_cases hll : l' = l
  · subst hll
    have hlist := h.list l'
    rw [hl] at hlist
    simp only [slistRemoveHead, Function.update_self]
    exact hlist.tail
  · simp only [slistRemoveHead, Function.update_of_ne hll]
    exact h.list l'

theorem Rep.removeAfter (h : ht.Rep hashword lists none) {prev : EntryId} (hl : lists l = l₁ ++ prev :: he :: l₂) :
    (ht.slistRemoveAfter prev).Rep hashword (Function.update lists l (l₁ ++ prev :: l₂)) (some he) := by
  have hlist := h.list l
  have hnodup := h.nodup l
  rw [hl] at hlist hnodup
  obtain ⟨hnext, hremoved⟩ := hlist.removeAfter hnodup
  have hnext' : (ht.slistRemoveAfter prev).next = Function.update ht.next prev (ht.next he) := by
    funext e
    have hprev : (ht.entry prev).sleNext = some he := hnext
    by_cases he : e = prev
    · subst he
      simp [next, slistRemoveAfter, hprev]
    · simp [next, slistRemoveAfter, he]
  refine @Rep.takeOut _ _ _ _ _ _ _ (l₁ ++ prev :: l₂) h ?_ rfl rfl rfl (fun e => ?_) fun l' => ?_
  · rw [hl]
    exact ((List.Perm.swap he prev l₂).append_left l₁).trans List.perm_middle
  · by_cases he : e = prev
    · subst he
      simp [slistRemoveAfter]
    · simp [slistRemoveAfter, he]
  · rw [hnext']
    by_cases hll : l' = l
    · subst hll
      rw [Function.update_self]
      exact hremoved
    · rw [Function.update_of_ne hll]
      refine (h.list l').frame fun e hin => Function.update_of_ne ?_ _ _
      rintro rfl
      exact hll (h.list_unique hin (hl ▸ List.mem_append_right l₁ List.mem_cons_self))

/-- The entry that is out is put in front of a list. -/
theorem Rep.insertHead (h : ht.Rep hashword lists (some he))
    (hhash : ∀ i, l = .bucket i → ht.bucketOf hashword (ht.entry he).key = i) :
    (ht.slistInsertHead l he).Rep hashword (Function.update lists l (he :: lists l)) none := by
  have hout := h.outside he rfl
  have hnext : (ht.slistInsertHead l he).next = Function.update ht.next he (ht.first l) := by
    funext e
    by_cases hee : e = he
    · subst hee
      simp [next, slistInsertHead]
    · simp [next, slistInsertHead, hee]
  have hkey : ∀ e, ((ht.slistInsertHead l he).entry e).key = (ht.entry e).key := fun e => by
    by_cases hee : e = he
    · subst hee
      simp [slistInsertHead]
    · simp [slistInsertHead, hee]
  have hmem : ∀ e l', e ∈ Function.update lists l (he :: lists l) l' ↔ (l' = l ∧ e = he) ∨ e ∈ lists l' := fun e l' => by
    by_cases hl : l' = l
    · subst hl
      simp
    · simp [hl]
  have hadd : (fun l' => (Function.update lists l (he :: lists l) l' : Multiset EntryId))
      = Places.add (fun l' => (lists l' : Multiset EntryId)) l he := by
    funext l'
    by_cases hl : l' = l
    · subst hl
      rw [Places.add_self, Function.update_self, Multiset.cons_coe]
    · rw [Places.add_ne hl, Function.update_of_ne hl]
  refine ⟨h.nbkt, h.buckets, fun l' => ?_, ?_, (fun e heq => nomatch heq), fun e => ?_, fun i e hin => ?_⟩
  · rw [hnext]
    by_cases hl : l' = l
    · subst hl
      simp only [slistInsertHead, Function.update_self]
      exact (h.list l').push (hout l')
    · simp only [slistInsertHead, Function.update_of_ne hl]
      refine (h.list l').frame fun e hin => Function.update_of_ne ?_ _ _
      rintro rfl
      exact hout l' hin
  · rw [hadd]
    exact h.distinct.add (fun l' hin => hout l' (Multiset.mem_coe.mp hin)) l
  · show _ ↔ e < ht.allocated
    rw [← h.allocated e]
    constructor
    · rintro (⟨l', hin⟩ | heq)
      · rcases (hmem e l').mp hin with ⟨-, rfl⟩ | hin
        · exact Or.inr rfl
        · exact Or.inl ⟨l', hin⟩
      · cases heq
    · rintro (⟨l', hin⟩ | heq)
      · exact Or.inl ⟨l', (hmem e l').mpr (Or.inr hin)⟩
      · exact Or.inl ⟨l, (hmem e l).mpr (Or.inl ⟨rfl, (Option.some.inj heq).symm⟩)⟩
  · rw [hkey]
    rcases (hmem e _).mp hin with ⟨heq, rfl⟩ | hin
    · exact hhash i heq.symm
    · exact h.hashed i e hin

/-- `malloc` of an entry -/
theorem Rep.malloc (h : ht.Rep hashword lists none) :
    Rep hashword { ht with allocated := ht.allocated + 1 } lists (some ht.allocated) := by
  refine ⟨h.nbkt, h.buckets, h.list, h.distinct, ?_, fun e => ?_, h.hashed⟩
  · rintro e ⟨⟩ l hin
    exact Nat.lt_irrefl _ ((h.allocated _).mp (Or.inl ⟨l, hin⟩))
  · show _ ↔ e < ht.allocated + 1
    rw [Nat.lt_succ_iff_lt_or_eq, ← h.allocated e, Option.some.injEq]
    constructor
    · rintro (hin | rfl)
      · exact Or.inl (Or.inl hin)
      · exact Or.inr rfl
    · rintro ((hin | heq) | rfl)
      · exact Or.inl hin
      · cases heq
      · exact Or.inr rfl

/-- The entry that is out gets a key and data. -/
theorem Rep.setEntry (h : ht.Rep hashword lists (some he)) (key : HashKey) (data : Option α) :
    Rep hashword { ht with entry := Function.update ht.entry he { ht.entry he with key := key, data := data } } lists
      (some he) := by
  refine ⟨h.nbkt, h.buckets, fun l => ?_, h.distinct, h.outside, h.allocated, fun i e hin => ?_⟩
  · refine (h.list l).frame fun e hin => ?_
    by_cases hee : e = he
    · subst hee
      simp [next]
    · simp [next, hee]
  · have hne : e ≠ he := fun heq => h.outside he rfl _ (heq ▸ hin)
    simp only [Function.update_of_ne hne]
    exact h.hashed i e hin

/-- What `get_free_entry` returns is out of all buckets. -/
theorem Rep.getFreeEntry (h : ht.Rep hashword lists none) :
    ∃ free, Rep hashword ht.getFreeEntry.2 (Function.update lists .free free) (some ht.getFreeEntry.1)
      ∧ ht.getFreeEntry.2.entry = ht.entry ∧ ht.getFreeEntry.2.nbkt = ht.nbkt := by
  rw [HashStore.getFreeEntry]
  have hlist := h.list .free
  cases hfree : lists .free with
  | nil =>
      rw [hfree] at hlist
      rw [show ht.first .free = none from hlist]
      refine ⟨[], ?_, rfl, rfl⟩
      rw [← hfree, Function.update_eq_self]
      exact h.malloc
  | cons he rest =>
      rw [hfree] at hlist
      rw [show ht.first .free = some he from hlist.1]
      exact ⟨rest, h.removeHead hfree, rfl, rfl⟩

/-! ## What the entries hold -/

theorem content_insertHead : (ht.slistInsertHead l he).content = ht.content := by
  funext e
  by_cases hee : e = he
  · subst hee
    simp [content, slistInsertHead]
  · simp [content, slistInsertHead, hee]

theorem data_insertHead : ((ht.slistInsertHead l he).entry e).data = (ht.entry e).data :=
  congrArg Prod.snd (congrFun content_insertHead e)

theorem content_removeAfter : (ht.slistRemoveAfter he).content = ht.content := by
  funext e
  by_cases hee : e = he
  · subst hee
    simp [content, slistRemoveAfter]
  · simp [content, slistRemoveAfter, hee]

theorem table_congr (hcontent : ht'.content = ht.content) (lists : HashList → List EntryId) :
    ht'.table lists = ht.table lists := by
  funext i
  rw [table, table, hcontent]

theorem table_update_free (rest : List EntryId) : ht.table (Function.update lists .free rest) = ht.table lists := by
  funext i
  rw [table, table, Function.update_of_ne (by simp)]

theorem table_update_bucket (rest : List EntryId) :
    ht.table (Function.update lists (.bucket i) rest) = Function.update (ht.table lists) i (rest.map ht.content) := by
  funext j
  by_cases hj : j = i
  · subst hj
    rw [Function.update_self, table, Function.update_self]
  · rw [Function.update_of_ne hj, table, table, Function.update_of_ne (by simpa using hj)]

/-- An entry that is put into the free list -/
theorem Rep.release (h : ht.Rep hashword lists (some he)) :
    ∃ lists', (ht.slistInsertHead .free he).Rep hashword lists' none
      ∧ (ht.slistInsertHead .free he).table lists' = ht.table lists := by
  refine ⟨_, h.insertHead (l := .free) (fun i heq => nomatch heq), ?_⟩
  rw [table_congr content_insertHead, table_update_free]

/-! ## The operations -/

theorem Rep.insert (h : ht.Rep hashword lists none) (key : HashKey) (data : Option α) :
    ∃ ht' lists', ht.htInsert hashword key data = some ht' ∧ ht'.Rep hashword lists' none
      ∧ ht'.table lists' = HashTable.insert (ht.bucketOf hashword) (ht.table lists) key data
      ∧ ht'.bucketOf hashword = ht.bucketOf hashword ∧ ht'.nbkt = ht.nbkt := by
  obtain ⟨free, hout, hentry, hnbkt⟩ := h.getFreeEntry
  have hbucket : ht.getFreeEntry.2.bucketOf hashword = ht.bucketOf hashword := by
    funext key
    rw [bucketOf, bucketOf, hnbkt]
  have hset := hout.setEntry key data
  have hput := hset.insertHead (l := .bucket (ht.bucketOf hashword key)) fun i heq => by
    cases heq
    simp only [bucketOf, Function.update_self]
    rw [hnbkt]
  refine ⟨_, _, ?_, hput, ?_, hbucket, hnbkt⟩
  · have hbuckets : ht.bucketOf hashword key < ht.buckets := h.bucketOf_lt key
    rw [htInsert, h.hash_eq, Option.bind_some, if_pos hbuckets]
  · -- no chain has the new entry, so that what is written to it changes none
    have hwrite : ∀ i, ∀ e ∈ lists (.bucket i),
        content { ht.getFreeEntry.2 with
          entry := Function.update ht.getFreeEntry.2.entry ht.getFreeEntry.1
            { ht.getFreeEntry.2.entry ht.getFreeEntry.1 with key := key, data := data } } e = ht.content e := by
      intro i e hin
      have hne : e ≠ ht.getFreeEntry.1 := by
        rintro rfl
        refine hout.outside _ rfl (.bucket i) ?_
        rwa [Function.update_of_ne (by simp)]
      simp only [content, Function.update_of_ne hne, hentry]
    rw [table_congr content_insertHead, table_update_bucket, table_update_free, HashTable.insert]
    funext i
    by_cases hi : i = ht.bucketOf hashword key
    · subst hi
      rw [Function.update_self, Function.update_self, List.map_cons, Function.update_of_ne (by simp), table]
      congr 1
      · simp [content]
      · exact List.map_congr_left (hwrite _)
    · rw [Function.update_of_ne hi, Function.update_of_ne hi, table, table]
      exact List.map_congr_left (hwrite i)

/-- The loop of `ht_search` -/
theorem searchFrom_eq : ∀ {head : Option EntryId} {es : List EntryId} {fuel : Nat}, SList.IsSList ht.next head es →
    es.length < fuel → ht.searchFrom key fuel head
      = some (((es.map ht.content).find? fun e => e.1 = key).bind Prod.snd)
  | _, [], fuel + 1, hlist, _ => by
      rw [show _ = none from hlist]
      rfl
  | _, e :: es, fuel + 1, ⟨hhead, hrest⟩, hlt => by
      rw [hhead, searchFrom]
      by_cases hkey : (ht.entry e).key = key
      · rw [if_pos hkey, List.map_cons, List.find?_cons_of_pos (by simp [content, hkey])]
        rfl
      · rw [if_neg hkey, List.map_cons, List.find?_cons_of_neg (by simp [content, hkey])]
        exact searchFrom_eq hrest (Nat.lt_of_succ_lt_succ hlt)

theorem Rep.search (h : ht.Rep hashword lists none) (key : HashKey) :
    ht.htSearch hashword key = some ((HashTable.search (ht.bucketOf hashword) (ht.table lists) key).join) := by
  rw [htSearch, h.hash_eq, Option.bind_some, if_pos (h.bucketOf_lt key),
    searchFrom_eq (h.list _) (Nat.lt_succ_of_le (h.length_le _)), HashTable.search]
  congr 1
  rw [table]
  cases ((lists (.bucket (ht.bucketOf hashword key))).map ht.content).find? fun e => e.1 = key <;> rfl

/-- The loop of `ht_remove` -/
theorem findFrom_eq (key : HashKey) : ∀ (prev : Option EntryId) {head : Option EntryId} {es : List EntryId} {fuel : Nat},
    SList.IsSList ht.next head es → es.length < fuel →
      (ht.findFrom key fuel prev head = some none ∧ ∀ e ∈ es, (ht.entry e).key ≠ key)
        ∨ ∃ l₁ he l₂, es = l₁ ++ he :: l₂ ∧ (∀ e ∈ l₁, (ht.entry e).key ≠ key) ∧ (ht.entry he).key = key
          ∧ ht.findFrom key fuel prev head = some (some (l₁.getLast?.or prev, he))
  | _, _, [], fuel + 1, hlist, _ => by
      rw [show _ = none from hlist]
      exact Or.inl ⟨rfl, by simp⟩
  | prev, _, e :: es, fuel + 1, ⟨hhead, hrest⟩, hlt => by
      rw [hhead, findFrom]
      by_cases hkey : (ht.entry e).key = key
      · rw [if_pos hkey]
        exact Or.inr ⟨[], e, es, rfl, by simp, hkey, rfl⟩
      · rw [if_neg hkey]
        rcases findFrom_eq key (some e) hrest (Nat.lt_of_succ_lt_succ hlt) with
          ⟨hnone, hall⟩ | ⟨l₁, he, l₂, hes, hl₁, hhe, hfound⟩
        · refine Or.inl ⟨hnone, fun x hx => ?_⟩
          rcases List.mem_cons.mp hx with rfl | hx
          · exact hkey
          · exact hall x hx
        · refine Or.inr ⟨e :: l₁, he, l₂, by rw [hes, List.cons_append], fun x hx => ?_, hhe, ?_⟩
          · rcases List.mem_cons.mp hx with rfl | hx
            · exact hkey
            · exact hl₁ x hx
          · refine hfound.trans ?_
            rw [List.getLast?_cons]
            cases l₁.getLast? <;> rfl

/-- The chain without the entry that has been found -/
theorem eraseP_found {l₁ : List EntryId} (l₂ : List EntryId) (hl₁ : ∀ e ∈ l₁, (ht.entry e).key ≠ key) (hhe : (ht.entry he).key = key) :
    ((l₁ ++ he :: l₂).map ht.content).eraseP (fun e => e.1 = key) = (l₁ ++ l₂).map ht.content
      ∧ ((l₁ ++ he :: l₂).map ht.content).find? (fun e => e.1 = key) = some (ht.content he) := by
  have hnot : ∀ x ∈ l₁.map ht.content, ¬ decide (x.1 = key) = true := by
    intro x hx
    obtain ⟨e, hin, rfl⟩ := List.mem_map.mp hx
    simp [content, hl₁ e hin]
  have herase : (ht.content he :: l₂.map ht.content).eraseP (fun e => e.1 = key) = l₂.map ht.content :=
    List.eraseP_cons_of_pos (by simp [content, hhe])
  have hfind : (ht.content he :: l₂.map ht.content).find? (fun e => e.1 = key) = some (ht.content he) :=
    List.find?_cons_of_pos (by simp [content, hhe])
  rw [List.map_append, List.map_cons, List.map_append]
  constructor
  · rw [List.eraseP_append_right _ hnot, herase]
  · rw [List.find?_append, List.find?_eq_none.mpr hnot, Option.none_or, hfind]

/-- A chain without the key stays as it is. -/
theorem eraseP_missing {es : List EntryId} (hes : ∀ e ∈ es, (ht.entry e).key ≠ key) :
    (es.map ht.content).eraseP (fun e => e.1 = key) = es.map ht.content
      ∧ (es.map ht.content).find? (fun e => e.1 = key) = none := by
  have hnot : ∀ x ∈ es.map ht.content, ¬ decide (x.1 = key) = true := by
    intro x hx
    obtain ⟨e, hin, rfl⟩ := List.mem_map.mp hx
    simp [content, hes e hin]
  exact ⟨List.eraseP_of_forall_not hnot, List.find?_eq_none.mpr hnot⟩

/-- `ht_remove` takes the latest entry of the key out of its chain. -/
theorem Rep.remove (h : ht.Rep hashword lists none) (key : HashKey) :
    ∃ ht' lists', ht.htRemove hashword key
        = some ((HashTable.search (ht.bucketOf hashword) (ht.table lists) key).join, ht')
      ∧ ht'.Rep hashword lists' none
      ∧ ht'.table lists' = Function.update (ht.table lists) (ht.bucketOf hashword key)
          ((ht.table lists (ht.bucketOf hashword key)).eraseP fun e => e.1 = key)
      ∧ ht'.bucketOf hashword = ht.bucketOf hashword ∧ ht'.nbkt = ht.nbkt := by
  obtain ⟨i, hi⟩ : ∃ i, i = ht.bucketOf hashword key := ⟨_, rfl⟩
  have hlist := h.list (.bucket i)
  have hlt : ht.bucketOf hashword key < ht.buckets := h.bucketOf_lt key
  rw [htRemove, h.hash_eq, Option.bind_some, if_pos hlt, ← hi, HashTable.search, ← hi]
  -- without the key nothing is found, and nothing changes
  have hmissing : (∀ e ∈ lists (.bucket i), (ht.entry e).key ≠ key) →
      ((ht.table lists i).find? (fun e => e.1 = key)).map Prod.snd = none
        ∧ ht.table lists = Function.update (ht.table lists) i ((ht.table lists i).eraseP fun e => e.1 = key) := by
    intro hall
    obtain ⟨herase, hfind⟩ := eraseP_missing hall
    rw [table, hfind, herase]
    exact ⟨rfl, (Function.update_eq_self i _).symm⟩
  -- the entry that is found, and the chain without it
  have hfound : ∀ {l₁ he l₂} {ht₁ : HashStore α}, lists (.bucket i) = l₁ ++ he :: l₂ →
      (∀ e ∈ l₁, (ht.entry e).key ≠ key) → (ht.entry he).key = key → ht₁.content = ht.content →
      ht₁.nbkt = ht.nbkt → ht₁.Rep hashword (Function.update lists (.bucket i) (l₁ ++ l₂)) (some he) →
      ∃ ht' lists', some (((ht₁.slistInsertHead .free he).entry he).data, ht₁.slistInsertHead .free he)
          = some ((((ht.table lists i).find? (fun e => e.1 = key)).map Prod.snd).join, ht')
        ∧ ht'.Rep hashword lists' none
        ∧ ht'.table lists' = Function.update (ht.table lists) i ((ht.table lists i).eraseP fun e => e.1 = key)
        ∧ ht'.bucketOf hashword = ht.bucketOf hashword ∧ ht'.nbkt = ht.nbkt := by
    intro l₁ he l₂ ht₁ hl hl₁ hhe hcontent hnbkt hrep
    obtain ⟨lists', hrep', htable⟩ := hrep.release
    obtain ⟨herase, hfind⟩ := eraseP_found l₂ hl₁ hhe
    refine ⟨_, lists', ?_, hrep', ?_, ?_⟩
    · have hdata : ((ht₁.slistInsertHead .free he).entry he).data = (ht.entry he).data :=
        data_insertHead.trans (congrArg Prod.snd (congrFun hcontent he))
      rw [table, hl, hfind, hdata]
      rfl
    · rw [htable, table_congr hcontent, table_update_bucket, table, hl, herase]
    · refine ⟨?_, hnbkt⟩
      funext key
      rw [bucketOf, bucketOf]
      show _ % ht₁.nbkt.toNat = _
      rw [hnbkt]
  cases hl : lists (.bucket i) with
  | nil =>
      rw [hl] at hlist
      rw [show ht.first (.bucket i) = none from hlist]
      obtain ⟨hnone, htable⟩ := hmissing (by rw [hl]; simp)
      exact ⟨ht, lists, by rw [hnone]; rfl, h, htable, rfl, rfl⟩
  | cons he rest =>
      have hfirst : ht.first (.bucket i) = some he := by
        rw [hl] at hlist
        exact hlist.1
      rw [hfirst]
      dsimp only
      by_cases hkey : (ht.entry he).key = key
      · rw [if_pos hkey]
        exact @hfound [] _ _ _ hl (by simp) hkey rfl rfl (h.removeHead hl)
      · rw [if_neg hkey, ← hfirst]
        rcases findFrom_eq key none hlist (Nat.lt_succ_of_le (h.length_le (.bucket i))) with
          ⟨hnone, hall⟩ | ⟨l₁, he', l₂, hes, hl₁, hhe', hfind⟩
        · rw [hnone]
          obtain ⟨hnone, htable⟩ := hmissing hall
          exact ⟨ht, lists, by rw [hnone]; rfl, h, htable, rfl, rfl⟩
        · -- it is not the first one
          obtain ⟨l₀, prev, rfl⟩ : ∃ l₀ prev, l₁ = l₀ ++ [prev] := by
            rcases List.eq_nil_or_concat l₁ with rfl | ⟨l₀, prev, heq⟩
            · rw [hl] at hes
              obtain ⟨rfl, -⟩ := List.cons.inj hes
              exact absurd hhe' hkey
            · exact ⟨l₀, prev, by rw [heq, List.concat_eq_append]⟩
          rw [hfind, List.getLast?_concat, Option.some_or, Option.bind_some]
          have hsplit : lists (.bucket i) = l₀ ++ prev :: he' :: l₂ := by rw [hes, List.append_assoc]; rfl
          refine hfound hes hl₁ hhe' content_removeAfter rfl ?_
          have hremoved := h.removeAfter hsplit
          rwa [List.append_assoc]

theorem firstBucket_eq (h : ht.Rep hashword lists none) : ∀ {n i : Nat}, i + n = ht.nbkt.toNat →
    (ht.firstBucket n i = some none ∧ ∀ j, i ≤ j → lists (.bucket j) = [])
      ∨ ∃ j he rest, lists (.bucket j) = he :: rest ∧ ht.firstBucket n i = some (some (j, he))
  | 0, i, hi => by
      refine Or.inl ⟨rfl, fun j hj => ?_⟩
      -- there is no bucket with this number
      refine List.eq_nil_iff_forall_not_mem.mpr fun e he => ?_
      have hlt : ht.bucketOf hashword (ht.entry e).key < ht.nbkt.toNat :=
        Nat.mod_lt _ (by have := h.nbkt; omega)
      rw [h.hashed j e he] at hlt
      omega
  | n + 1, i, hi => by
      have hlt : i < ht.buckets := by
        have := h.buckets
        omega
      rw [firstBucket, if_pos hlt]
      have hlist := h.list (.bucket i)
      cases hl : lists (.bucket i) with
      | nil =>
          rw [hl] at hlist
          rw [show ht.first (.bucket i) = none from hlist]
          rcases firstBucket_eq h (n := n) (i := i + 1) (by omega) with ⟨hnone, hall⟩ | hfound
          · refine Or.inl ⟨hnone, fun j hj => ?_⟩
            rcases Nat.eq_or_lt_of_le hj with rfl | hj
            · exact hl
            · exact hall j hj
          · exact Or.inr hfound
      | cons he rest =>
          rw [hl] at hlist
          rw [show ht.first (.bucket i) = some he from hlist.1]
          exact Or.inr ⟨i, he, rest, hl, rfl⟩

/-- `ht_pop` takes out the first entry of some chain. -/
theorem Rep.pop (h : ht.Rep hashword lists none) (hint : ht.nbkt < 2147483648) :
    (ht.htPop = some (none, ht) ∧ ∀ i, ht.table lists i = [])
      ∨ ∃ ht' lists' i k d rest, ht.table lists i = (k, d) :: rest ∧ ht.htPop = some (d, ht')
        ∧ ht'.Rep hashword lists' none ∧ ht'.table lists' = Function.update (ht.table lists) i rest
        ∧ ht'.bucketOf hashword = ht.bucketOf hashword ∧ ht'.nbkt = ht.nbkt := by
  have hpos := h.nbkt
  have hcount : (ht.nbkt % 18446744073709551616).toNat = ht.nbkt.toNat := by
    rw [Int.emod_eq_of_lt (Int.le_of_lt hpos) (by omega)]
  rw [htPop, hcount]
  rcases firstBucket_eq h (Nat.zero_add _) with ⟨hnone, hall⟩ | ⟨i, he, rest, hl, hfound⟩
  · refine Or.inl ⟨by rw [hnone]; rfl, fun i => ?_⟩
    rw [table, hall i (Nat.zero_le i), List.map_nil]
  · obtain ⟨lists', hrep, htable⟩ := (h.removeHead hl).release
    refine Or.inr ⟨_, lists', i, (ht.entry he).key, (ht.entry he).data, rest.map ht.content, ?_, ?_, hrep, ?_, rfl, rfl⟩
    · rw [table, hl]
      rfl
    · rw [hfound, Option.map_some]
      dsimp only
      rw [data_insertHead]
      rfl
    · rw [htable, table_update_bucket]
      rfl

/-! ## Runs -/

theorem Rep.allocateEntries : ∀ {n : Nat} {ht : HashStore α} {lists : HashList → List EntryId},
    ht.Rep hashword lists none → (∀ i, lists (.bucket i) = []) →
      ∃ lists', (ht.allocateEntries n).Rep hashword lists' none ∧ (∀ i, lists' (.bucket i) = [])
        ∧ (ht.allocateEntries n).nbkt = ht.nbkt
  | 0, ht, lists, h, hempty => ⟨lists, h, hempty, rfl⟩
  | n + 1, ht, lists, h, hempty => by
      have hput := h.malloc.insertHead (l := .free) (fun i heq => nomatch heq)
      obtain ⟨lists', hrep, hempty', hnbkt⟩ := Rep.allocateEntries (n := n) hput fun i => by
        rw [Function.update_of_ne (by simp), hempty]
      exact ⟨lists', hrep, hempty', hnbkt⟩

theorem intOfSize_le (n : Nat) : intOfSize n ≤ n := by
  unfold intOfSize
  have := Int.bmod_def (n : Int) 4294967296
  omega

theorem intOfSize_lt (n : Nat) : intOfSize n < 2147483648 := by
  unfold intOfSize
  have := Int.bmod_def (n : Int) 4294967296
  omega

theorem rep_init (hashword : HashKey → UInt32) {nbuckets : Nat} (hpos : 0 < intOfSize nbuckets) (nentries : Nat)
    (entry : EntryId → HashEntry α) :
    ∃ lists, (htInit nbuckets nentries entry).Rep hashword lists none ∧ (∀ i, lists (.bucket i) = [])
      ∧ (htInit nbuckets nentries entry).nbkt = intOfSize nbuckets := by
  have hle := intOfSize_le nbuckets
  rw [htInit]
  generalize intOfSize nbuckets = nbkt at hpos hle ⊢
  have hstart : Rep hashword (⟨nbkt, nbuckets, fun _ => none, entry, 0⟩ : HashStore α) (fun _ => []) none := by
    refine ⟨hpos, hle, fun _ => rfl, Places.distinct_empty, (fun _ heq => nomatch heq), fun e => ?_,
      fun _ e he => absurd he List.not_mem_nil⟩
    simp
  exact hstart.allocateEntries fun _ => rfl

end HashStore

inductive HashOp (α : Type*) where
  | insert (key : HashKey) (data : Option α)
  | search (key : HashKey)
  | remove (key : HashKey)
  | pop
  deriving DecidableEq, Repr

inductive HashResult (α : Type*) where
  | int (n : Int)
  | pointer (data : Option α)
  deriving DecidableEq, Repr

namespace HashStore

variable {α : Type*} (hashword : HashKey → UInt32)

def step (ht : HashStore α) : HashOp α → Option (HashResult α × HashStore α)
  | .insert key data => (ht.htInsert hashword key data).map fun ht => (.int 0, ht)
  | .search key => (ht.htSearch hashword key).map fun data => (.pointer data, ht)
  | .remove key => (ht.htRemove hashword key).map fun (data, ht) => (.pointer data, ht)
  | .pop => ht.htPop.map fun (data, ht) => (.pointer data, ht)

def run (ht : HashStore α) : List (HashOp α) → Option (List (HashResult α) × HashStore α)
  | [] => some ([], ht)
  | op :: ops =>
      (ht.step hashword op).bind fun (r, ht) => (ht.run ops).map fun (rs, ht) => (r :: rs, ht)

end HashStore

/-! ## The multimap -/

/-- The data of the latest entry of the key, `NULL` if there is none -/
def multimapLookup {α : Type*} (es : List (HashKey × Option α)) (key : HashKey) : Option α :=
  ((es.find? fun e => e.1 = key).map Prod.snd).join

/-- One operation on a multimap, whose entries are listed with the latest
first. Which entry is popped is left open. -/
inductive MultimapStep {α : Type*} :
    List (HashKey × Option α) → HashOp α → HashResult α → List (HashKey × Option α) → Prop where
  | insert (es key data) : MultimapStep es (.insert key data) (.int 0) ((key, data) :: es)
  | search (es key) : MultimapStep es (.search key) (.pointer (multimapLookup es key)) es
  | remove (es key) :
      MultimapStep es (.remove key) (.pointer (multimapLookup es key)) (es.eraseP fun e => e.1 = key)
  | popEmpty : MultimapStep [] .pop (.pointer none) []
  | pop (l₁ key data l₂) : MultimapStep (l₁ ++ (key, data) :: l₂) .pop (.pointer data) (l₁ ++ l₂)

inductive MultimapRun {α : Type*} :
    List (HashKey × Option α) → List (HashOp α) → List (HashResult α) → List (HashKey × Option α) → Prop where
  | nil (es) : MultimapRun es [] [] es
  | cons {es op r es' ops rs es''} (step : MultimapStep es op r es') (run : MultimapRun es' ops rs es'') :
      MultimapRun es (op :: ops) (r :: rs) es''

namespace HashStore

variable {α : Type*} {hashword : HashKey → UInt32} {ht : HashStore α} {es : List (HashKey × Option α)}

/-- Every entry that was ever allocated is in one list of the table, the
free entries or a bucket, and there once. -/
def EachInOneList (ht : HashStore α) : Prop :=
  ∃ lists : HashList → List EntryId, (∀ l, SList.IsSList ht.next (ht.first l) (lists l)) ∧ (∀ l, (lists l).Nodup)
    ∧ ∀ e < ht.allocated, ∃! l, e ∈ lists l

/-- The table stores the entries of the multimap. -/
structure Stores (hashword : HashKey → UInt32) (ht : HashStore α) (es : List (HashKey × Option α)) : Prop where
  rep : ∃ lists, ht.Rep hashword lists none ∧ HashTable.Holds (ht.bucketOf hashword) (ht.table lists) es
  int : ht.nbkt < 2147483648

theorem Stores.eachInOneList (h : ht.Stores hashword es) : ht.EachInOneList := by
  obtain ⟨lists, hrep, -⟩ := h.rep
  refine ⟨lists, hrep.list, hrep.nodup, fun e he => ?_⟩
  obtain ⟨l, hl⟩ | heq := (hrep.allocated e).mpr he
  · exact ⟨l, hl, fun l' hl' => hrep.list_unique hl' hl⟩
  · cases heq

theorem stores_step (h : ht.Stores hashword es) (op : HashOp α) :
    ∃ r ht' es', ht.step hashword op = some (r, ht') ∧ MultimapStep es op r es' ∧ ht'.Stores hashword es' := by
  obtain ⟨⟨lists, hrep, hholds⟩, hint⟩ := h
  cases op with
  | insert key data =>
      obtain ⟨ht', lists', hinsert, hrep', htable, hbucket, hnbkt⟩ := hrep.insert key data
      refine ⟨_, ht', _, by rw [step, hinsert]; rfl, .insert es key data, ⟨lists', hrep', ?_⟩, hnbkt ▸ hint⟩
      rw [hbucket, htable]
      exact hholds.insert key data
  | search key =>
      refine ⟨_, ht, es, ?_, .search es key, ⟨lists, hrep, hholds⟩, hint⟩
      rw [step, hrep.search, hholds.search]
      rfl
  | remove key =>
      obtain ⟨ht', lists', hremove, hrep', htable, hbucket, hnbkt⟩ := hrep.remove key
      refine ⟨_, ht', _, ?_, .remove es key, ⟨lists', hrep', ?_⟩, hnbkt ▸ hint⟩
      · rw [step, hremove, hholds.search]
        rfl
      · rw [hbucket, htable]
        exact hholds.erase key
  | pop =>
      rcases hrep.pop hint with ⟨hpop, hempty⟩ | ⟨ht', lists', i, key, data, rest, hi, hpop, hrep', htable, hbucket, hnbkt⟩
      · obtain rfl := hholds.nil hempty
        exact ⟨_, ht, [], by rw [step, hpop]; rfl, .popEmpty, ⟨lists, hrep, hholds⟩, hint⟩
      · obtain ⟨l₁, l₂, rfl, hholds'⟩ := hholds.pop hi
        refine ⟨_, ht', l₁ ++ l₂, by rw [step, hpop]; rfl, .pop l₁ key data l₂, ⟨lists', hrep', ?_⟩, hnbkt ▸ hint⟩
        rw [hbucket, htable]
        exact hholds'

theorem stores_run : ∀ (ops : List (HashOp α)) {ht : HashStore α} {es : List (HashKey × Option α)},
    ht.Stores hashword es →
      ∃ rs ht' es', ht.run hashword ops = some (rs, ht') ∧ MultimapRun es ops rs es' ∧ ht'.Stores hashword es'
  | [], ht, es, h => ⟨[], ht, es, rfl, .nil es, h⟩
  | op :: ops, ht, es, h => by
      obtain ⟨r, ht₁, es₁, hstep, hmap, h₁⟩ := stores_step h op
      obtain ⟨rs, ht', es', hrun, hmaps, h'⟩ := stores_run ops h₁
      refine ⟨r :: rs, ht', es', ?_, .cons hmap hmaps, h'⟩
      rw [run, hstep, Option.bind_some]
      dsimp only
      rw [hrun]
      rfl

/-- Every sequence of operations on a table does what it does on a
multimap, and loses no entry. -/
theorem hash_table_multimap (hashword : HashKey → UInt32) {nbuckets : Nat} (hpos : 0 < intOfSize nbuckets)
    (nentries : Nat) (entry : EntryId → HashEntry α) (ops : List (HashOp α)) :
    ∃ rs ht es, (htInit nbuckets nentries entry).run hashword ops = some (rs, ht) ∧ MultimapRun [] ops rs es
      ∧ ht.EachInOneList := by
  obtain ⟨lists, hrep, hempty, hnbkt⟩ := rep_init hashword hpos nentries entry
  have hstores : (htInit nbuckets nentries entry).Stores hashword [] := by
    refine ⟨⟨lists, hrep, fun i => ?_⟩, ?_⟩
    · rw [table, hempty]
      rfl
    · rw [hnbkt]
      exact intOfSize_lt nbuckets
  obtain ⟨rs, ht, es, hrun, hmap, h⟩ := stores_run ops hstores
  exact ⟨rs, ht, es, hrun, hmap, h.eachInOneList⟩

/-- Three operations on two keys of one bucket -/
theorem hash_table_multimap_two :
    0 < intOfSize 2 ∧ ∃ rs ht es, (htInit 2 1 fun _ => (⟨none, 0, none⟩ : HashEntry ℕ)).run (fun _ => 7)
        [.insert 3 (some 30), .insert 5 (some 50), .remove 3] = some (rs, ht)
      ∧ MultimapRun [] [.insert 3 (some 30), .insert 5 (some 50), .remove 3] rs es ∧ ht.EachInOneList :=
  ⟨by decide, hash_table_multimap _ (by decide) _ _ _⟩

/-- Without buckets there is no operation, and a stored `NULL` is not told
from an entry that is not there. -/
theorem hash_table_limits :
    ((htInit 0 1 fun _ => (⟨none, 0, none⟩ : HashEntry ℕ)).htSearch (fun _ => 7) 3).isNone
      ∧ ((htInit 1 1 fun _ => (⟨none, 0, none⟩ : HashEntry ℕ)).run (fun _ => 7)
          [.insert 5 none, .search 5]).map Prod.fst = some [.int 0, .pointer none]
      ∧ MultimapRun [] [.insert 5 none, .search 5] [.int 0, .pointer (none : Option ℕ)] [(5, none)] := by
  refine ⟨by decide, by decide, ?_⟩
  exact .cons (.insert [] 5 none) (.cons (.search [(5, none)] 5) (.nil _))

end HashStore

end Nosv
