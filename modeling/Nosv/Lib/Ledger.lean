import Mathlib.Algebra.Order.Group.Multiset
import Mathlib.Data.Multiset.UnionInter
import Mathlib.Tactic.Abel

/-!
# The ledger of an allocator

What a program has asked of an allocator: the blocks that it got, each
with the size it asked for, and the blocks that it gave back, each with
the size it named. `Allocates` is what a program does that ends up with
some blocks of its own, `Releases` what one does that gives blocks back,
and `Settled` says that everything has been given back, once and with an
equivalent size.

A program over the ledger that may get stuck is a `StateT` over `Option`;
`bind_eq_some` takes such programs apart.
-/

/-- Blocks are numbered in the order in which they are handed out. -/
structure Ledger (κ : Type*) where
  next : Nat
  allocs : Multiset (Nat × κ)
  frees : Multiset (Nat × κ)

namespace Ledger

variable {κ : Type*} {l l' l'' : Ledger κ} {own own' : Multiset (Nat × κ)}

def empty : Ledger κ := ⟨0, 0, 0⟩

def alloc (l : Ledger κ) (size : κ) : Ledger κ :=
  { l with next := l.next + 1, allocs := (l.next, size) ::ₘ l.allocs }

def free (l : Ledger κ) (block : Nat) (size : κ) : Ledger κ :=
  { l with frees := (block, size) ::ₘ l.frees }

/-- No block has been handed out twice. -/
def Fresh (l : Ledger κ) : Prop := (l.allocs.map Prod.fst).Nodup ∧ ∀ x ∈ l.allocs, x.1 < l.next

theorem fresh_empty : (empty : Ledger κ).Fresh := ⟨Multiset.nodup_zero, by simp [empty]⟩

theorem Fresh.alloc (h : l.Fresh) (size : κ) : (l.alloc size).Fresh := by
  obtain ⟨hnodup, hlt⟩ := h
  refine ⟨?_, fun x hx => ?_⟩
  · rw [Ledger.alloc, Multiset.map_cons, Multiset.nodup_cons]
    refine ⟨fun hmem => ?_, hnodup⟩
    obtain ⟨x, hx, heq⟩ := Multiset.mem_map.mp hmem
    have := hlt x hx
    omega
  · rcases Multiset.mem_cons.mp hx with rfl | hx
    · exact Nat.lt_succ_self _
    · exact Nat.lt_succ_of_lt (hlt x hx)

/-- From `l` to `l'` the program has got the blocks `own`, and perhaps some
that it has given back again. -/
def Allocates (l l' : Ledger κ) (own : Multiset (Nat × κ)) : Prop :=
  (l.Fresh → l'.Fresh)
    ∧ ∃ spent, l'.allocs = l.allocs + own + spent ∧ l'.frees = l.frees + spent

/-- From `l` to `l'` the program has given back the blocks `own`. -/
def Releases (l l' : Ledger κ) (own : Multiset (Nat × κ)) : Prop :=
  l'.allocs = l.allocs ∧ l'.frees = l.frees + own

theorem allocates_alloc (l : Ledger κ) (size : κ) : l.Allocates (l.alloc size) {(l.next, size)} :=
  ⟨fun h => h.alloc size, 0, by rw [add_zero, add_comm]; rfl, by simp [alloc]⟩

theorem Allocates.refl (l : Ledger κ) : l.Allocates l 0 := ⟨id, 0, by simp, by simp⟩

theorem Allocates.trans (h : l.Allocates l' own) (h' : l'.Allocates l'' own') :
    l.Allocates l'' (own + own') := by
  obtain ⟨hfresh, spent, hallocs, hfrees⟩ := h
  obtain ⟨hfresh', spent', hallocs', hfrees'⟩ := h'
  refine ⟨hfresh' ∘ hfresh, spent + spent', ?_, ?_⟩
  · rw [hallocs', hallocs]
    abel
  · rw [hfrees', hfrees]
    abel

/-- A block of its own that the program gives back. -/
theorem Allocates.free {b : Nat} {size : κ} (h : l.Allocates l' (own + {(b, size)} + own')) :
    l.Allocates (l'.free b size) (own + own') := by
  obtain ⟨hfresh, spent, hallocs, hfrees⟩ := h
  refine ⟨hfresh, {(b, size)} + spent, ?_, ?_⟩
  · rw [Ledger.free, hallocs]
    abel
  · rw [Ledger.free, hfrees, Multiset.singleton_add, Multiset.add_cons]

theorem releases_free (l : Ledger κ) (b : Nat) (size : κ) : l.Releases (l.free b size) {(b, size)} :=
  ⟨rfl, by rw [add_comm]; rfl⟩

theorem Releases.refl (l : Ledger κ) : l.Releases l 0 := ⟨rfl, by simp⟩

theorem Releases.trans (h : l.Releases l' own) (h' : l'.Releases l'' own') :
    l.Releases l'' (own + own') :=
  ⟨h'.1.trans h.1, by rw [h'.2, h.2, add_assoc]⟩

/-- Every block has been given back once, with an equivalent size, and
nothing else has been given back. -/
structure Settled (same : κ → κ → Prop) (l : Ledger κ) : Prop where
  once : ∀ x ∈ l.allocs, (l.frees.map Prod.fst).count x.1 = 1
  only : ∀ y ∈ l.frees, ∃ x ∈ l.allocs, x.1 = y.1
  size : ∀ x ∈ l.allocs, ∀ y ∈ l.frees, x.1 = y.1 → same x.2 y.2

/-- Blocks are settled when they are given back one for one. -/
theorem settled_of_rel {same : κ → κ → Prop} (hnodup : (l.allocs.map Prod.fst).Nodup)
    (hrel : Multiset.Rel (fun x y => x.1 = y.1 ∧ same x.2 y.2) l.allocs l.frees) :
    l.Settled same := by
  have hblocks : l.frees.map Prod.fst = l.allocs.map Prod.fst := by
    refine (Multiset.rel_eq.mp ?_).symm
    exact Multiset.rel_map.mpr (hrel.mono fun _ _ _ _ h => h.1)
  refine ⟨fun x hx => ?_, fun y hy => ?_, fun x hx y hy hxy => ?_⟩
  · rw [hblocks]
    exact Multiset.count_eq_one_of_mem hnodup (Multiset.mem_map_of_mem _ hx)
  · have hmem : y.1 ∈ l.frees.map Prod.fst := Multiset.mem_map_of_mem _ hy
    rw [hblocks] at hmem
    exact Multiset.mem_map.mp hmem
  · rw [← hblocks] at hnodup
    obtain ⟨y', hy', heq, hsame⟩ := Multiset.exists_mem_of_rel_of_mem hrel hx
    obtain rfl := Multiset.inj_on_of_nodup_map hnodup _ hy _ hy' (hxy.symm.trans heq)
    exact hsame

/-- The first step of a program, and the rest. -/
theorem bind_eq_some {σ α β : Type} {m : StateT σ Option α} {f : α → StateT σ Option β} {l : σ}
    {r : β × σ} :
    (m >>= f) l = some r ↔ ∃ a l', m l = some (a, l') ∧ f a l' = some r := by
  constructor
  · intro h
    obtain ⟨⟨a, l'⟩, hm, hf⟩ := Option.bind_eq_some_iff.mp h
    exact ⟨a, l', hm, hf⟩
  · rintro ⟨a, l', hm, hf⟩
    exact Option.bind_eq_some_iff.mpr ⟨(a, l'), hm, hf⟩

end Ledger
