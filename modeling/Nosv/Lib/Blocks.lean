import Mathlib.Algebra.GroupWithZero.Nat
import Mathlib.Algebra.Order.BigOperators.Group.List
import Mathlib.Algebra.Order.Group.Nat
import Mathlib.Data.List.AList
import Mathlib.Data.List.Nodup
import Mathlib.Logic.Function.Basic

/-!
# A memory of blocks

Blocks are allocated, written and freed by their address. `Framed` says what
an operation may touch: of the live blocks it changes those of its owner
only, and those that the owner has afterwards are of these or new. Frames
compose, and a family of owners that share no block stays one when one of
them acts.
-/

namespace Nosv

namespace Blocks

abbrev Addr := Nat

/-- The live blocks and what they hold -/
abbrev Memory (β : Type) := AList fun _ : Addr => β

/-- The address of a new block is not that of a live one. -/
structure Allocator where
  next : List Addr → Addr
  fresh : ∀ live, next live ∉ live

/-- An allocator that goes above every live block -/
def Allocator.bump : Allocator where
  next live := live.sum + 1
  fresh _ hmem := absurd (List.single_le_sum (fun _ _ => Nat.zero_le _) _ hmem) (Nat.not_succ_le_self _)

variable {β : Type} {m m' m'' : Memory β} {a : Addr} {x : β} {own own' own'' rest : List Addr}

/-- The address of a new block, and the memory with it -/
def alloc (al : Allocator) (x : β) (m : Memory β) : Addr × Memory β :=
  (al.next m.keys, m.insert (al.next m.keys) x)

/-- Only a live block can be freed. -/
def free (a : Addr) (m : Memory β) : Option (Memory β) := if a ∈ m then some (m.erase a) else none

def write (a : Addr) (x : β) (m : Memory β) : Option (Memory β) :=
  if a ∈ m then some (m.insert a x) else none

/-! ## Frames -/

/-- The blocks of an owner are live, and none is counted twice. -/
structure Owns (m : Memory β) (own : List Addr) : Prop where
  nodup : own.Nodup
  live : ∀ a ∈ own, a ∈ m

theorem Owns.nil : Owns m [] := ⟨List.nodup_nil, fun _ ha => absurd ha List.not_mem_nil⟩

theorem Owns.perm (h : Owns m own) (hperm : own.Perm own') : Owns m own' :=
  ⟨hperm.nodup_iff.mp h.nodup, fun a ha => h.live a (hperm.mem_iff.mpr ha)⟩

theorem Owns.sublist (h : Owns m own) (hsub : own'.Sublist own) : Owns m own' :=
  ⟨h.nodup.sublist hsub, fun a ha => h.live a (hsub.subset ha)⟩

/-- From `m`, where it owns `own`, an owner went to `m'`, where it owns
`own'`. -/
structure Framed (m : Memory β) (own : List Addr) (m' : Memory β) (own' : List Addr) : Prop where
  kept : ∀ a ∈ m, a ∉ own → m'.lookup a = m.lookup a
  new : ∀ a ∈ own', a ∈ own ∨ a ∉ m
  owns : Owns m' own'

theorem mem_of_lookup_eq (h : m'.lookup a = m.lookup a) (ha : a ∈ m) : a ∈ m' :=
  AList.lookup_isSome.mp (h ▸ AList.lookup_isSome.mpr ha)

theorem Framed.refl (h : Owns m own) : Framed m own m own := ⟨fun _ _ _ => rfl, fun _ ha => Or.inl ha, h⟩

/-- Blocks may be given up. -/
theorem Framed.forget (h : Framed m own m' own') (hsub : own''.Sublist own') : Framed m own m' own'' :=
  ⟨h.kept, fun a ha => h.new a (hsub.subset ha), h.owns.sublist hsub⟩

theorem Framed.perm (h : Framed m own m' own') (hperm : own'.Perm own'') : Framed m own m' own'' :=
  ⟨h.kept, fun a ha => h.new a (hperm.mem_iff.mpr ha), h.owns.perm hperm⟩

theorem Framed.trans (h : Framed m own m' own') (h' : Framed m' own' m'' own'') : Framed m own m'' own'' := by
  have hout : ∀ a ∈ m, a ∉ own → a ∉ own' := fun a ha hnot hown' =>
    (h.new a hown').elim hnot fun hdead => hdead ha
  refine ⟨fun a ha hnot => ?_, fun a ha => ?_, h'.owns⟩
  · have hkept := h.kept a ha hnot
    rw [h'.kept a (mem_of_lookup_eq hkept ha) (hout a ha hnot), hkept]
  · rcases h'.new a ha with hown' | hdead
    · exact h.new a hown'
    · by_cases hown : a ∈ own
      · exact Or.inl hown
      · exact Or.inr fun hlive => hdead (mem_of_lookup_eq (h.kept a hlive hown) hlive)

/-- What the owner has besides stays with it. -/
theorem Framed.beside (h : Framed m own m' own') (howns : Owns m (own ++ rest)) :
    Framed m (own ++ rest) m' (own' ++ rest) := by
  obtain ⟨-, hrest, hapart⟩ := List.nodup_append'.mp howns.nodup
  have hlive : ∀ a ∈ rest, a ∈ m := fun a ha => howns.live a (List.mem_append_right own ha)
  refine ⟨fun a ha hnot => h.kept a ha fun hown => hnot (List.mem_append_left rest hown),
    fun a ha => ?_, List.nodup_append'.mpr ⟨h.owns.nodup, hrest, fun a hown' ha => ?_⟩, fun a ha => ?_⟩
  · rcases List.mem_append.mp ha with hown' | hrest
    · exact (h.new a hown').imp (List.mem_append_left rest) id
    · exact Or.inl (List.mem_append_right own hrest)
  · exact (h.new a hown').elim (fun hown => hapart hown ha) fun hdead => hdead (hlive a ha)
  · rcases List.mem_append.mp ha with hown' | ha
    · exact h.owns.live a hown'
    · exact mem_of_lookup_eq (h.kept a (hlive a ha) fun hown => hapart hown ha) (hlive a ha)

/-- What the owner had before may be given up. -/
theorem Framed.leak (h : Framed m [] m' own') (howns : Owns m own) : Framed m own m' own' :=
  (h.beside howns).forget (List.sublist_append_left own' own)

/-! ## The operations -/

theorem alloc_notMem (al : Allocator) (x : β) (m : Memory β) : (alloc al x m).1 ∉ m :=
  fun h => al.fresh m.keys (AList.mem_keys.mp h)

@[simp] theorem lookup_alloc (al : Allocator) (x : β) (m : Memory β) :
    (alloc al x m).2.lookup (alloc al x m).1 = some x := AList.lookup_insert m

theorem alloc_frame (al : Allocator) (x : β) (h : Owns m own) :
    Framed m own (alloc al x m).2 ((alloc al x m).1 :: own) := by
  have hnew := alloc_notMem al x m
  refine ⟨fun a ha _ => AList.lookup_insert_ne (ne_of_mem_of_not_mem ha hnew), fun a ha => ?_,
    List.nodup_cons.mpr ⟨fun hown => hnew (h.live _ hown), h.nodup⟩, fun a ha => ?_⟩
  · rcases List.mem_cons.mp ha with rfl | hown
    · exact Or.inr hnew
    · exact Or.inl hown
  · exact (AList.mem_insert m).mpr ((List.mem_cons.mp ha).imp id (h.live a))

/-- A block that an owner has can be freed. -/
theorem free_frame (h : Owns m own) (ha : a ∈ own) :
    ∃ m', free a m = some m' ∧ Framed m own m' (own.erase a) := by
  refine ⟨m.erase a, if_pos (h.live a ha), fun b _ hb => ?_,
    fun b hb => Or.inl (List.mem_of_mem_erase hb), h.nodup.erase a, fun b hb => ?_⟩
  · exact AList.lookup_erase_ne fun heq => hb (heq ▸ ha)
  · obtain ⟨hne, hmem⟩ := h.nodup.mem_erase_iff.mp hb
    exact AList.mem_erase.mpr ⟨hne, h.live b hmem⟩

/-- A block that an owner has can be written. -/
theorem write_frame (x : β) (h : Owns m own) (ha : a ∈ own) :
    ∃ m', write a x m = some m' ∧ Framed m own m' own ∧ m'.lookup a = some x
      ∧ ∀ b, b ≠ a → m'.lookup b = m.lookup b :=
  ⟨m.insert a x, if_pos (h.live a ha),
    ⟨fun _ _ hb => AList.lookup_insert_ne fun heq => hb (heq ▸ ha), fun _ hb => Or.inl hb, h.nodup,
      fun b hb => (AList.mem_insert m).mpr (Or.inr (h.live b hb))⟩,
    AList.lookup_insert m, fun _ hb => AList.lookup_insert_ne hb⟩

/-! ## Several owners -/

/-- No two owners have a block in common. -/
structure Owners {ι : Type} (m : Memory β) (own : ι → List Addr) : Prop where
  owns : ∀ i, Owns m (own i)
  apart : ∀ i j, i ≠ j → (own i).Disjoint (own j)

variable {ι : Type} {f : ι → List Addr} {i j : ι}

/-- What the others own stays as it is. -/
theorem Owners.kept (h : Owners m f) (hframe : Framed m (f i) m' own') (hne : j ≠ i) :
    ∀ a ∈ f j, m'.lookup a = m.lookup a :=
  fun a ha => hframe.kept a ((h.owns j).live a ha) (h.apart j i hne ha)

theorem Owners.update [DecidableEq ι] (h : Owners m f) (hframe : Framed m (f i) m' own') :
    Owners m' (Function.update f i own') := by
  have hother : ∀ j, j ≠ i → own'.Disjoint (f j) := by
    intro j hne a hown' ha
    rcases hframe.new a hown' with hown | hdead
    · exact h.apart j i hne ha hown
    · exact hdead ((h.owns j).live a ha)
  refine ⟨fun j => ?_, fun j k hne => ?_⟩
  · by_cases hj : j = i
    · rw [hj, Function.update_self]
      exact hframe.owns
    · rw [Function.update_of_ne hj]
      exact ⟨(h.owns j).nodup, fun a ha =>
        mem_of_lookup_eq (h.kept hframe hj a ha) ((h.owns j).live a ha)⟩
  · by_cases hj : j = i
    · rw [hj, Function.update_self, Function.update_of_ne (hj ▸ hne.symm)]
      exact hother k (hj ▸ hne.symm)
    · rw [Function.update_of_ne hj]
      by_cases hk : k = i
      · rw [hk, Function.update_self]
        exact List.disjoint_symm (hother j hj)
      · rw [Function.update_of_ne hk]
        exact h.apart j k hne

end Blocks

end Nosv
