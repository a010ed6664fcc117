import Mathlib.Data.List.Chain
import Mathlib.Data.List.Nodup
import Mathlib.Logic.Function.Basic

/-!
# Circular doubly linked lists

Intrusive lists, as many systems written in C have them: every element
holds a hook with two links, a list is a circle of hooks, and one of them
is its head. A hook that is in no list is a circle of its own.

The links of all hooks are one store `Links`; `IsRing m h l` says that in
store `m` the hooks `l`, in this order, are the list with head `h`. Each
operation has one lemma for the list it works on, and one that says which
hooks it leaves alone (`Links.Same`), which is what keeps other lists
intact (`IsRing.frame`).
-/

namespace Ring

structure Links (α : Type*) where
  next : α → α
  prev : α → α

variable {α : Type*}

namespace Links

/-- Every hook is a circle of its own. -/
def unlinked : Links α := ⟨id, id⟩

/-- The two stores give hook `x` the same links. -/
def Same (m m' : Links α) (x : α) : Prop := m'.next x = m.next x ∧ m'.prev x = m.prev x

variable [DecidableEq α]

/-- `p` and `q` become neighbours. -/
def join (m : Links α) (p q : α) : Links α :=
  ⟨Function.update m.next p q, Function.update m.prev q p⟩

def init (m : Links α) (h : α) : Links α := m.join h h

/-- `n` is put between `p` and `q`. -/
def insert (m : Links α) (p n q : α) : Links α where
  next := Function.update (Function.update m.next p n) n q
  prev := Function.update (Function.update m.prev q n) n p

def addTail (m : Links α) (h n : α) : Links α := m.insert (m.prev h) n h

def remove (m : Links α) (n : α) : Links α := (m.join (m.prev n) (m.next n)).init n

def popFront (m : Links α) (h : α) : Option α × Links α :=
  if m.next h = h then (none, m)
  else (some (m.next h), (m.join h (m.next (m.next h))).init (m.next h))

/-- The first hook of the list. -/
def front (m : Links α) (h : α) : Option α := if m.next h = h then none else some (m.next h)

/-- The hook is in a list, or is the head of one that is not empty. -/
def inserted (m : Links α) (n : α) : Bool := m.next n ≠ n

/-- The list with head `old` gets the head `new`; the writes are done one
after the other. -/
def moveHead (m : Links α) (old new : α) : Links α :=
  let m : Links α := { m with next := Function.update m.next (m.prev old) new }
  let m : Links α := { m with prev := Function.update m.prev (m.next old) new }
  let m : Links α := { m with prev := Function.update m.prev new (m.prev old) }
  let m : Links α := { m with next := Function.update m.next new (m.next old) }
  m.init old

/-- `new` takes the place of `old`; the writes are done one after the
other, and an empty list is only initialised again. -/
def replace (m : Links α) (old new : α) : Links α :=
  if m.next old = old then m.init new
  else
    let m : Links α := { m with next := Function.update m.next new (m.next old) }
    let m : Links α := { m with prev := Function.update m.prev new (m.prev old) }
    let m : Links α := { m with prev := Function.update m.prev (m.next new) new }
    let m : Links α := { m with next := Function.update m.next (m.prev new) new }
    m.init old

end Links

/-- In store `m` the list with head `h` is `l`. -/
structure IsRing (m : Links α) (h : α) (l : List α) : Prop where
  nodup : (h :: l).Nodup
  chain : (h :: (l ++ [h])).IsChain fun x y => m.next x = y ∧ m.prev y = x

open Links

/-- A chain only depends on the links inside it. -/
theorem chain_congr {m m' : Links α} :
    ∀ {l : List α}, (∀ x ∈ l.dropLast, m'.next x = m.next x) → (∀ y ∈ l.tail, m'.prev y = m.prev y) →
      l.IsChain (fun x y => m.next x = y ∧ m.prev y = x) →
      l.IsChain fun x y => m'.next x = y ∧ m'.prev y = x
  | [], _, _, _ => .nil
  | [a], _, _, _ => .singleton a
  | a :: b :: l, hnext, hprev, h => by
      rw [List.isChain_cons_cons] at h ⊢
      refine ⟨⟨?_, ?_⟩, chain_congr (fun x hx => hnext x ?_) (fun y hy => hprev y ?_) h.2⟩
      · rw [hnext a (by simp), h.1.1]
      · rw [hprev b (by simp), h.1.2]
      · rw [List.dropLast_cons_cons]
        exact List.mem_cons_of_mem a hx
      · exact List.mem_cons_of_mem b hy

theorem IsRing.frame {m m' : Links α} {h : α} {l : List α} (hring : IsRing m h l)
    (hsame : ∀ x ∈ h :: l, m.Same m' x) : IsRing m' h l := by
  have hmem : ∀ x ∈ h :: (l ++ [h]), x ∈ h :: l := by
    intro x hx
    simp only [List.mem_cons, List.mem_append, List.not_mem_nil, or_false] at hx ⊢
    tauto
  exact ⟨hring.nodup, chain_congr (fun x hx => (hsame x (hmem x (List.dropLast_subset _ hx))).1)
    (fun y hy => (hsame y (hmem y (List.mem_of_mem_tail hy))).2) hring.chain⟩

/-- Following the next links from the head leads back to it. -/
theorem IsRing.walk {m : Links α} {h : α} {l : List α} (hring : IsRing m h l) :
    (h :: (l ++ [h])).IsChain fun x y => m.next x = y :=
  hring.chain.imp fun _ _ hxy => hxy.1

/-- A walk only depends on the next links of the hooks it passes. -/
theorem walk_congr {m m' : Links α} {h : α} :
    ∀ {l : List α}, (∀ x ∈ l, m'.next x = m.next x) →
      (l ++ [h]).IsChain (fun x y => m.next x = y) → (l ++ [h]).IsChain fun x y => m'.next x = y
  | [], _, _ => .singleton h
  | [a], hnext, hwalk => by
      rw [List.singleton_append, List.isChain_pair] at hwalk ⊢
      rw [hnext a List.mem_cons_self, hwalk]
  | a :: b :: l, hnext, hwalk => by
      rw [List.cons_append, List.cons_append, List.isChain_cons_cons] at hwalk ⊢
      refine ⟨?_, walk_congr (fun x hx => hnext x (List.mem_cons_of_mem a hx)) hwalk.2⟩
      rw [hnext a List.mem_cons_self, hwalk.1]

theorem isRing_nil_iff {m : Links α} {h : α} : IsRing m h [] ↔ m.next h = h ∧ m.prev h = h := by
  constructor
  · intro hring
    exact (List.isChain_cons_cons.mp hring.chain).1
  · intro hself
    exact ⟨List.nodup_singleton h, List.isChain_pair.mpr hself⟩

theorem isRing_unlinked (h : α) : IsRing unlinked h [] := isRing_nil_iff.mpr ⟨rfl, rfl⟩

/-- The first and the last element are the neighbours of the head. -/
theorem IsRing.next_head {m : Links α} {h x : α} {l : List α} (hring : IsRing m h (x :: l)) :
    m.next h = x ∧ m.prev x = h :=
  (List.isChain_cons_cons.mp hring.chain).1

theorem IsRing.prev_head {m : Links α} {h : α} {l : List α} (hring : IsRing m h l) :
    m.prev h = (h :: l).getLast (List.cons_ne_nil h l) ∧
      m.next ((h :: l).getLast (List.cons_ne_nil h l)) = h := by
  have hchain := hring.chain
  have hsplit : h :: (l ++ [h]) = (h :: l).dropLast ++
      (h :: l).getLast (List.cons_ne_nil h l) :: h :: [] := by
    rw [List.append_cons _ _ [h], List.dropLast_append_getLast (List.cons_ne_nil h l)]
    rfl
  rw [hsplit, List.isChain_append_cons_cons] at hchain
  exact ⟨hchain.2.1.2, hchain.2.1.1⟩

/-- In a list that is not empty the head is linked to another hook. -/
theorem IsRing.next_eq_iff {m : Links α} {h : α} {l : List α} (hring : IsRing m h l) :
    m.next h = h ↔ l = [] := by
  cases l with
  | nil => exact iff_of_true (isRing_nil_iff.mp hring).1 rfl
  | cons x l =>
      rw [hring.next_head.1]
      have hne := (List.nodup_cons.mp hring.nodup).1
      exact iff_of_false (fun heq => hne (heq ▸ List.mem_cons_self)) (List.cons_ne_nil x l)

variable [DecidableEq α] {m : Links α} {h n x : α} {l l₁ l₂ : List α}

theorem isRing_init (m : Links α) (h : α) : IsRing (m.init h) h [] :=
  isRing_nil_iff.mpr ⟨by simp [init, join], by simp [init, join]⟩

theorem same_init (hx : x ≠ h) : m.Same (m.init h) x := by
  simp [Same, init, join, hx]

/-! ## Adding at the end -/

theorem same_addTail (hring : IsRing m h l) (hx : x ∉ h :: l) (hne : x ≠ n) :
    m.Same (m.addTail h n) x := by
  have hprev : x ≠ m.prev h := by
    rintro rfl
    exact hx (hring.prev_head.1 ▸ List.getLast_mem _)
  have hhead : x ≠ h := fun heq => hx (heq ▸ List.mem_cons_self)
  simp [Same, addTail, Links.insert, hne, hprev, hhead]

theorem IsRing.addTail (hring : IsRing m h l) (hn : n ∉ h :: l) :
    IsRing (m.addTail h n) h (l ++ [n]) := by
  obtain ⟨hlast, -⟩ := hring.prev_head
  have hnodup : (h :: (l ++ [n])).Nodup := by
    rw [← List.cons_append, List.nodup_append]
    refine ⟨hring.nodup, List.nodup_singleton n, fun a ha b hb => ?_⟩
    rintro rfl
    exact hn (List.mem_singleton.mp hb ▸ ha)
  have hne : ∀ y ∈ h :: l, y ≠ n := fun y hy heq => hn (heq ▸ hy)
  refine ⟨hnodup, ?_⟩
  have hfront : (h :: l).IsChain fun x y =>
      (m.addTail h n).next x = y ∧ (m.addTail h n).prev y = x := by
    have hchain : (h :: l).IsChain fun x y => m.next x = y ∧ m.prev y = x := by
      have := hring.chain
      rw [← List.cons_append] at this
      exact this.left_of_append
    refine chain_congr (fun y hy => ?_) (fun y hy => ?_) hchain
    · have hylast : y ≠ m.prev h := by
        rw [hlast]
        rintro rfl
        have hnd := hring.nodup
        rw [← List.dropLast_append_getLast (List.cons_ne_nil h l), List.nodup_append] at hnd
        exact hnd.2.2 _ hy _ (List.mem_singleton_self _) rfl
      simp [Links.addTail, Links.insert, hne y (List.dropLast_subset _ hy), hylast]
    · have hyh : y ≠ h := fun heq => (List.nodup_cons.mp hring.nodup).1 (heq ▸ hy)
      simp [Links.addTail, Links.insert, hne y (List.mem_of_mem_tail hy), hyh]
  rw [List.append_assoc, ← List.cons_append, List.isChain_append]
  refine ⟨hfront, ?_, fun a ha b hb => ?_⟩
  · rw [List.singleton_append, List.isChain_pair]
    have := hne h List.mem_cons_self
    simp [Links.addTail, Links.insert, this]
  · rw [List.getLast?_eq_getLast_of_ne_nil (List.cons_ne_nil h l)] at ha
    obtain rfl := Option.some.inj ha
    obtain rfl := Option.some.inj hb
    rw [← hlast]
    have hpn : m.prev h ≠ n := hlast ▸ hne _ (List.getLast_mem _)
    simp [Links.addTail, Links.insert, hpn]

/-! ## Removing -/

omit [DecidableEq α] in
/-- The neighbours of an element. -/
theorem IsRing.neighbours (hring : IsRing m h (l₁ ++ x :: l₂)) :
    m.prev x = (h :: l₁).getLast (List.cons_ne_nil h l₁) ∧
      m.next x = (l₂ ++ [h]).head (by simp) := by
  have hchain := hring.chain
  have hleft : h :: (l₁ ++ x :: l₂ ++ [h]) = (h :: l₁).dropLast ++
      (h :: l₁).getLast (List.cons_ne_nil h l₁) :: x :: (l₂ ++ [h]) := by
    rw [List.append_cons _ _ (x :: (l₂ ++ [h])),
      List.dropLast_append_getLast (List.cons_ne_nil h l₁)]
    simp
  rw [hleft, List.isChain_append_cons_cons] at hchain
  refine ⟨hchain.2.1.2, ?_⟩
  have hright := hchain.2.2
  rw [List.isChain_cons] at hright
  exact (hright.1 _ (List.head?_eq_some_head _)).1

theorem same_remove {y : α} (hring : IsRing m h (l₁ ++ x :: l₂)) (hy : y ∉ h :: (l₁ ++ x :: l₂)) :
    m.Same (m.remove x) y := by
  obtain ⟨hprev, hnext⟩ := hring.neighbours
  have hyp : y ≠ m.prev x := by
    rintro rfl
    have := List.getLast_mem (List.cons_ne_nil h l₁)
    rw [← hprev] at this
    simp only [List.mem_cons, List.mem_append, not_or] at this hy
    tauto
  have hyn : y ≠ m.next x := by
    rintro rfl
    have : (l₂ ++ [h]).head (by simp) ∈ l₂ ++ [h] := List.head_mem _
    rw [← hnext] at this
    simp only [List.mem_cons, List.mem_append, List.not_mem_nil, or_false, not_or] at this hy
    tauto
  have hyx : y ≠ x := fun heq => hy (by simp [heq])
  simp [Same, Links.remove, init, join, hyp, hyn, hyx]

theorem IsRing.remove (hring : IsRing m h (l₁ ++ x :: l₂)) :
    IsRing (m.remove x) h (l₁ ++ l₂) ∧ IsRing (m.remove x) x [] := by
  refine ⟨?_, isRing_init _ x⟩
  obtain ⟨hprev, hnext⟩ := hring.neighbours
  have hnd := hring.nodup
  have hx : x ∉ h :: (l₁ ++ l₂) := by
    intro hin
    have hperm : (h :: (l₁ ++ x :: l₂)).Perm (x :: h :: (l₁ ++ l₂)) :=
      (List.Perm.cons h List.perm_middle).trans (List.Perm.swap x h _)
    exact (List.nodup_cons.mp (hperm.nodup_iff.mp hnd)).1 hin
  have hnodup : (h :: (l₁ ++ l₂)).Nodup := by
    refine hnd.sublist (List.Sublist.cons_cons h ?_)
    exact List.Sublist.append_left (List.sublist_cons_self x l₂) l₁
  have hleft : (h :: l₁).IsChain fun a b => m.next a = b ∧ m.prev b = a := by
    have := hring.chain
    rw [List.append_assoc, ← List.cons_append] at this
    exact this.left_of_append
  have hright : (l₂ ++ [h]).IsChain fun a b => m.next a = b ∧ m.prev b = a := by
    have := hring.chain
    rw [List.append_assoc, ← List.cons_append] at this
    exact (List.isChain_cons.mp this.right_of_append).2
  have hnex : ∀ y ∈ h :: (l₁ ++ l₂), y ≠ x := fun y hy heq => hx (heq ▸ hy)
  refine ⟨hnodup, ?_⟩
  rw [List.append_assoc, ← List.cons_append, List.isChain_append]
  refine ⟨chain_congr (fun y hy => ?_) (fun y hy => ?_) hleft,
    chain_congr (fun y hy => ?_) (fun y hy => ?_) hright, fun a ha b hb => ?_⟩
  · -- before the last element on the left, the next links are as they were
    have hylast : y ≠ m.prev x := by
      rw [hprev]
      rintro rfl
      have hnd' : (h :: l₁).Nodup := hnodup.sublist (List.Sublist.cons_cons h (by simp))
      rw [← List.dropLast_append_getLast (List.cons_ne_nil h l₁), List.nodup_append] at hnd'
      exact hnd'.2.2 _ hy _ (List.mem_singleton_self _) rfl
    have hyx := hnex y (by
      have := List.dropLast_subset _ hy
      simp only [List.mem_cons, List.mem_append] at this ⊢
      tauto)
    simp [Links.remove, init, join, hylast, hyx]
  · have hyn : y ≠ m.next x := by
      rw [hnext]
      rintro rfl
      have hin : (l₂ ++ [h]).head (by simp) ∈ l₂ ++ [h] := List.head_mem _
      rcases List.mem_append.mp hin with hin | hin
      · exact (List.nodup_append.mp (List.nodup_cons.mp hnodup).2).2.2 _ hy _ hin rfl
      · rw [List.mem_singleton.mp hin] at hy
        exact (List.nodup_cons.mp hnodup).1 (List.mem_append_left _ hy)
    have hyx := hnex y (List.mem_cons_of_mem h (List.mem_append_left _ hy))
    simp [Links.remove, init, join, hyn, hyx]
  · rw [List.dropLast_concat] at hy
    have hyp : y ≠ m.prev x := by
      rw [hprev]
      rintro rfl
      have hin := List.getLast_mem (List.cons_ne_nil h l₁)
      rcases List.mem_cons.mp hin with hin | hin
      · rw [hin] at hy
        exact (List.nodup_cons.mp hnodup).1 (List.mem_append_right _ hy)
      · exact (List.nodup_append.mp (List.nodup_cons.mp hnodup).2).2.2 _ hin _ hy rfl
    have hyx := hnex y (List.mem_cons_of_mem h (List.mem_append_right _ hy))
    simp [Links.remove, init, join, hyp, hyx]
  · have hyn : y ≠ m.next x := by
      rw [hnext]
      cases l₂ with
      | nil => cases hy
      | cons z l₂ =>
          rintro rfl
          simp only [List.cons_append, List.tail_cons, List.mem_append, List.mem_singleton]
            at hy
          rcases hy with hy | rfl
          · have := (List.nodup_append.mp (List.nodup_cons.mp hnodup).2).2.1
            exact (List.nodup_cons.mp this).1 hy
          · exact (List.nodup_cons.mp hnodup).1 (by simp)
    have hyx := hnex y (by
      have := List.mem_of_mem_tail hy
      simp only [List.mem_cons, List.mem_append, List.not_mem_nil, or_false] at this ⊢
      tauto)
    simp [Links.remove, init, join, hyn, hyx]
  · rw [List.getLast?_eq_getLast_of_ne_nil (List.cons_ne_nil h l₁)] at ha
    obtain rfl := Option.some.inj ha
    rw [List.head?_eq_some_head (by simp : l₂ ++ [h] ≠ [])] at hb
    obtain rfl := Option.some.inj hb
    rw [← hprev, ← hnext]
    have hpx : m.prev x ≠ x := by
      rw [hprev]
      refine hnex _ ?_
      have := List.getLast_mem (List.cons_ne_nil h l₁)
      simp only [List.mem_cons, List.mem_append] at this ⊢
      tauto
    have hnx : m.next x ≠ x := by
      rw [hnext]
      refine hnex _ ?_
      have : (l₂ ++ [h]).head (by simp) ∈ l₂ ++ [h] := List.head_mem _
      simp only [List.mem_cons, List.mem_append, List.not_mem_nil, or_false] at this ⊢
      tauto
    simp [Links.remove, init, join, hpx, hnx]

/-- Every element can be removed. -/
theorem IsRing.inserted (hring : IsRing m h l) (hx : x ∈ l) : m.inserted x = true := by
  obtain ⟨l₁, l₂, rfl⟩ := List.append_of_mem hx
  have hnext := hring.neighbours.2
  have hin : (l₂ ++ [h]).head (by simp) ∈ l₂ ++ [h] := List.head_mem _
  rw [← hnext] at hin
  have hnd := hring.nodup
  rw [Links.inserted, decide_eq_true_eq]
  intro heq
  rw [heq, List.mem_append, List.mem_singleton] at hin
  rcases hin with hin | rfl
  · have := (List.nodup_append.mp (List.nodup_cons.mp hnd).2).2.1
    exact (List.nodup_cons.mp this).1 hin
  · exact (List.nodup_cons.mp hnd).1 (by simp)

theorem inserted_of_nil (hself : IsRing m x []) : m.inserted x = false := by
  rw [Links.inserted, decide_eq_false_iff_not, not_not]
  exact (isRing_nil_iff.mp hself).1

theorem popFront_nil (hring : IsRing m h []) : m.popFront h = (none, m) :=
  if_pos (isRing_nil_iff.mp hring).1

theorem popFront_cons (hring : IsRing m h (x :: l)) : m.popFront h = (some x, m.remove x) := by
  obtain ⟨hnext, hprev⟩ := hring.next_head
  have hne : m.next h ≠ h := fun heq => List.cons_ne_nil x l (hring.next_eq_iff.mp heq)
  rw [popFront, if_neg hne, hnext, Links.remove, hprev]

theorem IsRing.front (hring : IsRing m h l) : m.front h = l.head? := by
  cases l with
  | nil => exact if_pos (isRing_nil_iff.mp hring).1
  | cons x l =>
      have hne : m.next h ≠ h := fun heq => List.cons_ne_nil x l (hring.next_eq_iff.mp heq)
      rw [Links.front, if_neg hne, hring.next_head.1, List.head?_cons]

/-! ## Moving the head -/

/-- The head of an empty list is left as it was; the new head looks empty. -/
theorem moveHead_nil {new : α} (hring : IsRing m h []) (hnew : new ≠ h) :
    IsRing (m.moveHead h new) h [] ∧ (m.moveHead h new).next new = new
      ∧ ∀ y, y ≠ h → y ≠ new → m.Same (m.moveHead h new) y := by
  obtain ⟨hnext, hprev⟩ := isRing_nil_iff.mp hring
  refine ⟨isRing_init _ h, ?_, fun y hyh hyn => ?_⟩
  · simp [moveHead, init, join, hprev, hnew]
  · simp [Same, moveHead, init, join, hprev, hyh, hyn]

/-- What the writes of `moveHead` amount to when the list is not empty. -/
theorem moveHead_links {old new a b : α} (hnext : m.next old = a) (hprev : m.prev old = b)
    (ha : a ≠ old) (hb : b ≠ old) (y : α) :
    (m.moveHead old new).next y
        = (if y = old then old else if y = new then a else if y = b then new else m.next y)
      ∧ (m.moveHead old new).prev y
        = (if y = old then old else if y = new then b else if y = a then new else m.prev y) := by
  have hnext' : Function.update m.next b new old = a := by rw [Function.update_of_ne hb.symm, hnext]
  have hprev' : Function.update m.prev a new old = b := by rw [Function.update_of_ne ha.symm, hprev]
  simp only [moveHead, init, join, hprev, hnext', hprev', Function.update_apply, and_self]

theorem IsRing.moveHead {old new : α} (hring : IsRing m old l) (hl : l ≠ [])
    (hnew : new ∉ old :: l) :
    IsRing (m.moveHead old new) new l ∧ IsRing (m.moveHead old new) old []
      ∧ ∀ y, y ∉ old :: l → y ≠ new → m.Same (m.moveHead old new) y := by
  obtain ⟨a, l', rfl⟩ := List.exists_cons_of_ne_nil hl
  obtain ⟨hnext, -⟩ := hring.next_head
  obtain ⟨hprev, -⟩ := hring.prev_head
  rw [List.getLast_cons_cons] at hprev
  set b := (a :: l').getLast (List.cons_ne_nil a l') with hb
  have hbin : b ∈ a :: l' := List.getLast_mem _
  have hnotin := (List.nodup_cons.mp hring.nodup).1
  have hnd := (List.nodup_cons.mp hring.nodup).2
  have haold : a ≠ old := fun heq => hnotin (heq ▸ List.mem_cons_self)
  have hbold : b ≠ old := fun heq => hnotin (heq ▸ hbin)
  have hlinks : ∀ y, _ := fun y => @moveHead_links α _ m old new a b hnext hprev haold hbold y
  have hin : ∀ y ∈ a :: l', y ≠ old ∧ y ≠ new := fun y hy =>
    ⟨fun heq => hnotin (heq ▸ hy), fun heq => hnew (heq ▸ List.mem_cons_of_mem old hy)⟩
  have hnewold : new ≠ old := fun heq => hnew (heq ▸ List.mem_cons_self)
  refine ⟨⟨List.nodup_cons.mpr ⟨fun h => hnew (List.mem_cons_of_mem old h), hnd⟩, ?_⟩,
    isRing_init _ old, fun y hy hyn => ?_⟩
  · have hinner : (a :: l').IsChain fun x y =>
        (m.moveHead old new).next x = y ∧ (m.moveHead old new).prev y = x := by
      have hchain : (a :: l').IsChain fun x y => m.next x = y ∧ m.prev y = x := by
        have := (List.isChain_cons.mp hring.chain).2
        exact this.left_of_append
      refine chain_congr (fun y hy => ?_) (fun y hy => ?_) hchain
      · obtain ⟨hyold, hynew⟩ := hin y (List.dropLast_subset _ hy)
        have hyb : y ≠ b := by
          rintro rfl
          rw [← List.dropLast_append_getLast (List.cons_ne_nil a l'), List.nodup_append] at hnd
          exact hnd.2.2 _ hy _ (List.mem_singleton_self _) rfl
        rw [(hlinks y).1, if_neg hyold, if_neg hynew, if_neg hyb]
      · obtain ⟨hyold, hynew⟩ := hin y (List.mem_of_mem_tail hy)
        have hya : y ≠ a := fun heq => (List.nodup_cons.mp hnd).1 (heq ▸ hy)
        rw [(hlinks y).2, if_neg hyold, if_neg hynew, if_neg hya]
    rw [List.isChain_cons, List.isChain_append]
    refine ⟨fun y hy => ?_, hinner, List.isChain_singleton new, fun x hx y hy => ?_⟩
    · obtain rfl := Option.some.inj hy
      rw [(hlinks new).1, (hlinks a).2, if_neg hnewold, if_pos rfl, if_neg haold,
        if_neg (hin a List.mem_cons_self).2, if_pos rfl]
      exact ⟨rfl, rfl⟩
    · rw [List.getLast?_eq_getLast_of_ne_nil (List.cons_ne_nil a l')] at hx
      obtain rfl := Option.some.inj hx
      obtain rfl := Option.some.inj hy
      rw [← hb, (hlinks b).1, (hlinks new).2, if_neg hbold, if_neg (hin b hbin).2, if_pos rfl,
        if_neg hnewold, if_pos rfl]
      exact ⟨rfl, rfl⟩
  · have hyold : y ≠ old := fun heq => hy (heq ▸ List.mem_cons_self)
    have hyb : y ≠ b := fun heq => hy (heq ▸ List.mem_cons_of_mem old hbin)
    have hya : y ≠ a := fun heq => hy (heq ▸ by simp)
    refine ⟨?_, ?_⟩
    · rw [(hlinks y).1, if_neg hyold, if_neg hyn, if_neg hyb]
    · rw [(hlinks y).2, if_neg hyold, if_neg hyn, if_neg hya]

/-! ## Replacing the head -/

/-- On a list that is not empty the writes of `replace` and of `moveHead`
have the same effect. -/
theorem replace_eq_moveHead {old new a b : α} (hnext : m.next old = a) (hprev : m.prev old = b)
    (ha : a ≠ old) (hb : b ≠ old) (hanew : a ≠ new) (hbnew : b ≠ new) :
    m.replace old new = m.moveHead old new := by
  have hnext' : Function.update m.next b new old = a := by rw [Function.update_of_ne hb.symm, hnext]
  have hprev' : Function.update m.prev a new old = b := by rw [Function.update_of_ne ha.symm, hprev]
  rw [Links.replace, if_neg (by rw [hnext]; exact ha)]
  simp only [moveHead, init, join, hnext, hprev, hnext', hprev', Function.update_self,
    Function.update_of_ne hanew.symm, Function.update_comm hanew, Function.update_comm hbnew]

theorem IsRing.replace {old new : α} (hring : IsRing m old l) (hnew : new ∉ old :: l) :
    IsRing (m.replace old new) new l
      ∧ ∀ y, y ∉ old :: l → y ≠ new → m.Same (m.replace old new) y := by
  by_cases hl : l = []
  · subst hl
    rw [Links.replace, if_pos (isRing_nil_iff.mp hring).1]
    exact ⟨isRing_init m new, fun y _ hy => same_init hy⟩
  · obtain ⟨a, l', rfl⟩ := List.exists_cons_of_ne_nil hl
    obtain ⟨hmove, -, hsame⟩ := hring.moveHead hl hnew
    obtain ⟨hnext, -⟩ := hring.next_head
    obtain ⟨hprev, -⟩ := hring.prev_head
    rw [List.getLast_cons_cons] at hprev
    have hin : ∀ y ∈ a :: l', y ≠ old ∧ y ≠ new := fun y hy =>
      ⟨fun heq => (List.nodup_cons.mp hring.nodup).1 (heq ▸ hy),
        fun heq => hnew (heq ▸ List.mem_cons_of_mem old hy)⟩
    obtain ⟨haold, hanew⟩ := hin a List.mem_cons_self
    obtain ⟨hbold, hbnew⟩ := hin _ (List.getLast_mem (List.cons_ne_nil a l'))
    rw [replace_eq_moveHead hnext hprev haold hbold hanew hbnew]
    exact ⟨hmove, hsame⟩

/-! ## Taking out the head -/

omit [DecidableEq α] in
/-- The circle, seen from its second hook. -/
theorem IsRing.rotate {r : List α} (hring : IsRing m h (n :: r)) : IsRing m n (r ++ [h]) := by
  have hperm : (n :: (r ++ [h])).Perm (h :: n :: r) := by
    rw [← List.cons_append]
    exact List.perm_append_comm
  refine ⟨hperm.nodup_iff.mpr hring.nodup, ?_⟩
  have hchain := hring.chain
  rw [List.cons_append, List.isChain_cons_cons] at hchain
  have hsplit : n :: (r ++ [h] ++ [n]) = (n :: r) ++ h :: n :: [] := by simp
  have hfront : (n :: r) ++ [h] = n :: (r ++ [h]) := rfl
  rw [hsplit, List.isChain_append_cons_cons, hfront]
  exact ⟨hchain.2, hchain.1, .singleton n⟩

/-- Removing the head makes the first element the head of the others. -/
theorem IsRing.removeHead {r : List α} (hring : IsRing m h (n :: r)) :
    IsRing (m.remove h) n r ∧ ∀ y, y ∉ h :: n :: r → m.Same (m.remove h) y := by
  have hrot := hring.rotate
  refine ⟨?_, fun y hy => same_remove hrot ?_⟩
  · have := hrot.remove.1
    rwa [List.append_nil] at this
  · simp only [List.mem_cons, List.mem_append, List.not_mem_nil, or_false, not_or] at hy ⊢
    tauto

/-! ## Several lists in one store -/

/-- The list with head `h` is `seq h`, for all heads at once. A hook that
is in no list, and is the head of none or of an empty one, is a circle of
its own, as far as its next link goes; with the other link too if it is
one of `ok`. -/
structure Family (ok : α → Prop) (m : Links α) (seq : α → List α) : Prop where
  ring : ∀ h, seq h ≠ [] → IsRing m h (seq h)
  disjoint : ∀ x h h', x ∈ seq h → x ∈ seq h' → h = h'
  head : ∀ x h, x ∈ seq h → seq x = []
  loop : ∀ x, seq x = [] → (∀ h, x ∉ seq h) → m.next x = x
  self : ∀ x, ok x → seq x = [] → (∀ h, x ∉ seq h) → IsRing m x []

namespace Family

variable {ok : α → Prop} {seq : α → List α} {old new : α}

omit [DecidableEq α] in
theorem isRing (hfam : Family ok m seq) (hok : ok h) (hh : ∀ h', h ∉ seq h') : IsRing m h (seq h) := by
  by_cases hnil : seq h = []
  · rw [hnil]
    exact hfam.self h hok hnil hh
  · exact hfam.ring h hnil

omit [DecidableEq α] in
/-- The hooks of another list. -/
theorem notMem_of_ne {h' : α} (hfam : Family ok m seq) (hh : ∀ h', h ∉ seq h') (hne : h' ≠ h)
    (hnil : seq h' ≠ []) (hx : x ∈ h' :: seq h') : x ∉ h :: seq h := by
  intro hin
  rcases List.mem_cons.mp hx with rfl | hx
  · rcases List.mem_cons.mp hin with heq | hin
    · exact hne heq
    · exact hnil (hfam.head x h hin)
  · rcases List.mem_cons.mp hin with rfl | hin
    · exact hh h' hx
    · exact hne (hfam.disjoint x h' h hx hin)

theorem addTail (hfam : Family ok m seq) (hring : IsRing m h (seq h)) (hh : ∀ h', h ∉ seq h')
    (hn : ∀ h', n ∉ seq h') (hnil : seq n = []) (hne : n ≠ h) :
    Family ok (m.addTail h n) (Function.update seq h (seq h ++ [n])) := by
  have hnotin : n ∉ h :: seq h := by
    rintro hin
    exact (List.mem_cons.mp hin).elim hne (hn h)
  have hmem : ∀ {x h'}, x ∈ Function.update seq h (seq h ++ [n]) h' →
      x ∈ seq h' ∨ (h' = h ∧ x = n) := by
    intro x h' hx
    by_cases hh' : h' = h
    · subst hh'
      rw [Function.update_self, List.mem_append, List.mem_singleton] at hx
      exact hx.imp_right fun heq => ⟨rfl, heq⟩
    · rw [Function.update_of_ne hh'] at hx
      exact Or.inl hx
  -- a hook that is free afterwards was free before, and nobody has written it
  have hfree : ∀ {x}, Function.update seq h (seq h ++ [n]) x = [] →
      (∀ h', x ∉ Function.update seq h (seq h ++ [n]) h') →
      seq x = [] ∧ (∀ h', x ∉ seq h') ∧ m.Same (m.addTail h n) x := by
    intro x hl hx
    have hxh : x ≠ h := by
      rintro rfl
      rw [Function.update_self] at hl
      simp at hl
    rw [Function.update_of_ne hxh] at hl
    have hxn : x ≠ n := by
      rintro rfl
      have := hx h
      rw [Function.update_self] at this
      simp at this
    have hout : ∀ h', x ∉ seq h' := by
      intro h' hin
      refine hx h' ?_
      by_cases hh' : h' = h
      · subst hh'
        rw [Function.update_self]
        exact List.mem_append_left _ hin
      · rwa [Function.update_of_ne hh']
    exact ⟨hl, hout, same_addTail hring (fun hin => (List.mem_cons.mp hin).elim hxh (hout h)) hxn⟩
  refine ⟨fun h' hl => ?_, fun x h₁ h₂ hx₁ hx₂ => ?_, fun x h' hx => ?_, fun x hl hx => ?_,
    fun x hok hl hx => ?_⟩
  · by_cases hh' : h' = h
    · subst hh'
      rw [Function.update_self]
      exact hring.addTail hnotin
    · rw [Function.update_of_ne hh'] at hl ⊢
      refine (hfam.ring h' hl).frame fun x hx => same_addTail hring (hfam.notMem_of_ne hh hh' hl hx) ?_
      rintro rfl
      rcases List.mem_cons.mp hx with rfl | hx
      · exact hl hnil
      · exact hn h' hx
  · rcases hmem hx₁ with hin₁ | ⟨heq₁, hxn⟩ <;> rcases hmem hx₂ with hin₂ | ⟨heq₂, hxn₂⟩
    · exact hfam.disjoint x h₁ h₂ hin₁ hin₂
    · exact absurd (hxn₂ ▸ hin₁) (hn h₁)
    · exact absurd (hxn ▸ hin₂) (hn h₂)
    · exact heq₁.trans heq₂.symm
  · have hxh : x ≠ h := by
      rintro rfl
      rcases hmem hx with hx | ⟨-, heq⟩
      · exact hh h' hx
      · exact hne heq.symm
    rw [Function.update_of_ne hxh]
    rcases hmem hx with hx | ⟨-, rfl⟩
    · exact hfam.head x h' hx
    · exact hnil
  · obtain ⟨hl, hout, hsame⟩ := hfree hl hx
    rw [hsame.1]
    exact hfam.loop x hl hout
  · obtain ⟨hl, hout, hsame⟩ := hfree hl hx
    refine (hfam.self x hok hl hout).frame fun y hy => ?_
    obtain rfl := List.mem_singleton.mp hy
    exact hsame

theorem remove (hfam : Family ok m seq) (hx : x ∈ seq h) :
    Family ok (m.remove x) (Function.update seq h ((seq h).erase x)) := by
  have hnil : seq h ≠ [] := List.ne_nil_of_mem hx
  have hh : ∀ h', h ∉ seq h' := fun h' hin => hnil (hfam.head h h' hin)
  have hring := hfam.ring h hnil
  obtain ⟨l₁, l₂, hl⟩ := List.append_of_mem hx
  have hnd : (seq h).Nodup := (List.nodup_cons.mp hring.nodup).2
  have hfirst : x ∉ l₁ := by
    rw [hl, List.nodup_append] at hnd
    exact fun hin => hnd.2.2 x hin x List.mem_cons_self rfl
  have herase : (seq h).erase x = l₁ ++ l₂ := by
    rw [hl, List.erase_append_right _ hfirst, List.erase_cons_head]
  have hrest : ∀ {y h'}, y ∈ Function.update seq h ((seq h).erase x) h' → y ∈ seq h' := by
    intro y h' hy
    by_cases hh' : h' = h
    · subst hh'
      rw [Function.update_self] at hy
      exact List.mem_of_mem_erase hy
    · rwa [Function.update_of_ne hh'] at hy
  rw [hl] at hring
  have hsame : ∀ y, y ∉ h :: seq h → m.Same (m.remove x) y := by
    intro y hy
    rw [hl] at hy
    exact same_remove hring hy
  -- what is free afterwards: the removed hook, the head if its list is empty
  -- now, and what was free before
  have hfree : ∀ {y}, Function.update seq h ((seq h).erase x) y = [] →
      (∀ h', y ∉ Function.update seq h ((seq h).erase x) h') →
      IsRing (m.remove x) y [] ∨ (seq y = [] ∧ (∀ h', y ∉ seq h') ∧ m.Same (m.remove x) y) := by
    intro y hl' hy
    by_cases hyx : y = x
    · subst hyx
      exact Or.inl hring.remove.2
    · by_cases hyh : y = h
      · subst hyh
        rw [Function.update_self, herase] at hl'
        rw [← hl']
        exact Or.inl hring.remove.1
      · rw [Function.update_of_ne hyh] at hl'
        have hout : ∀ h', y ∉ seq h' := by
          intro h' hin
          refine hy h' ?_
          by_cases hh' : h' = h
          · subst hh'
            rw [Function.update_self]
            exact (List.mem_erase_of_ne hyx).mpr hin
          · rwa [Function.update_of_ne hh']
        exact Or.inr ⟨hl', hout, hsame y fun hin => (List.mem_cons.mp hin).elim hyh (hout h)⟩
  refine ⟨fun h' hl' => ?_, fun y h₁ h₂ hy₁ hy₂ => hfam.disjoint y h₁ h₂ (hrest hy₁) (hrest hy₂),
    fun y h' hy => ?_, fun y hl' hy => ?_, fun y hok hl' hy => ?_⟩
  · by_cases hh' : h' = h
    · subst hh'
      rw [Function.update_self, herase]
      exact hring.remove.1
    · rw [Function.update_of_ne hh'] at hl' ⊢
      exact (hfam.ring h' hl').frame fun y hy => hsame y (hfam.notMem_of_ne hh hh' hl' hy)
  · have hyh : y ≠ h := by
      rintro rfl
      exact hh h' (hrest hy)
    rw [Function.update_of_ne hyh]
    exact hfam.head y h' (hrest hy)
  · rcases hfree hl' hy with hself | ⟨hl', hout, hsame⟩
    · exact (isRing_nil_iff.mp hself).1
    · rw [hsame.1]
      exact hfam.loop y hl' hout
  · rcases hfree hl' hy with hself | ⟨hl', hout, hsame⟩
    · exact hself
    · refine (hfam.self y hok hl' hout).frame fun z hz => ?_
      obtain rfl := List.mem_singleton.mp hz
      exact hsame

theorem moveHead (hfam : Family ok m seq) (hring : IsRing m old (seq old)) (hold : ∀ h, old ∉ seq h)
    (hnew : ∀ h, new ∉ seq h) (hnil : seq new = []) (hne : new ≠ old) (hok : ¬ ok new) :
    Family ok (m.moveHead old new) (Function.update (Function.update seq new (seq old)) old []) := by
  -- the circle of the new head, the old head on its own, and the other hooks
  have hmoved : (seq old ≠ [] → IsRing (m.moveHead old new) new (seq old))
      ∧ IsRing (m.moveHead old new) old []
      ∧ (∀ y, y ∉ old :: seq old → y ≠ new → m.Same (m.moveHead old new) y)
      ∧ (seq old = [] → (m.moveHead old new).next new = new) := by
    by_cases hl : seq old = []
    · rw [hl] at hring ⊢
      obtain ⟨hself, hnext, hsame⟩ := moveHead_nil hring hne
      exact ⟨fun hnot => absurd rfl hnot, hself, fun y hy => hsame y (by simpa using hy), fun _ => hnext⟩
    · have hnotin : new ∉ old :: seq old := fun hin => (List.mem_cons.mp hin).elim hne (hnew old)
      obtain ⟨hmove, hself, hsame⟩ := hring.moveHead hl hnotin
      exact ⟨fun _ => hmove, hself, hsame, fun hnot => absurd hnot hl⟩
  obtain ⟨hmove, hself, hsame, hnext⟩ := hmoved
  have hmem : ∀ {x h}, x ∈ Function.update (Function.update seq new (seq old)) old [] h →
      (h = new ∧ x ∈ seq old) ∨ (h ≠ old ∧ x ∈ seq h) := by
    intro x h hx
    by_cases hho : h = old
    · subst hho
      simp at hx
    · rw [Function.update_of_ne hho] at hx
      by_cases hhn : h = new
      · subst hhn
        rw [Function.update_self] at hx
        exact Or.inl ⟨rfl, hx⟩
      · rw [Function.update_of_ne hhn] at hx
        exact Or.inr ⟨hho, hx⟩
  have hfree : ∀ {x}, x ≠ old → x ≠ new →
      Function.update (Function.update seq new (seq old)) old [] x = [] →
      (∀ h, x ∉ Function.update (Function.update seq new (seq old)) old [] h) →
      seq x = [] ∧ (∀ h, x ∉ seq h) ∧ m.Same (m.moveHead old new) x := by
    intro x hxo hxn hl hx
    rw [Function.update_of_ne hxo, Function.update_of_ne hxn] at hl
    have hout : ∀ h, x ∉ seq h := by
      intro h hin
      by_cases hho : h = old
      · subst hho
        refine hx new ?_
        rwa [Function.update_of_ne hne, Function.update_self]
      · by_cases hhn : h = new
        · rw [hhn, hnil] at hin
          cases hin
        · refine hx h ?_
          rwa [Function.update_of_ne hho, Function.update_of_ne hhn]
    exact ⟨hl, hout, hsame x (fun hin => (List.mem_cons.mp hin).elim hxo (hout old)) hxn⟩
  refine ⟨fun h hl => ?_, fun x h₁ h₂ hx₁ hx₂ => ?_, fun x h hx => ?_, fun x hl hx => ?_,
    fun x hokx hl hx => ?_⟩
  · by_cases hho : h = old
    · subst hho
      simp at hl
    · rw [Function.update_of_ne hho] at hl ⊢
      by_cases hhn : h = new
      · subst hhn
        rw [Function.update_self] at hl ⊢
        exact hmove hl
      · rw [Function.update_of_ne hhn] at hl ⊢
        refine (hfam.ring h hl).frame fun x hx => hsame x (hfam.notMem_of_ne hold hho hl hx) ?_
        rintro rfl
        rcases List.mem_cons.mp hx with rfl | hx
        · exact hhn rfl
        · exact hnew h hx
  · rcases hmem hx₁ with ⟨rfl, hin₁⟩ | ⟨ho₁, hin₁⟩ <;> rcases hmem hx₂ with ⟨rfl, hin₂⟩ | ⟨ho₂, hin₂⟩
    · rfl
    · exact absurd (hfam.disjoint x h₂ old hin₂ hin₁) ho₂
    · exact absurd (hfam.disjoint x h₁ old hin₁ hin₂) ho₁
    · exact hfam.disjoint x h₁ h₂ hin₁ hin₂
  · have hin : ∃ h', x ∈ seq h' := (hmem hx).elim (fun hin => ⟨old, hin.2⟩) fun hin => ⟨h, hin.2⟩
    obtain ⟨h', hin⟩ := hin
    have hxo : x ≠ old := fun heq => hold h' (heq ▸ hin)
    have hxn : x ≠ new := fun heq => hnew h' (heq ▸ hin)
    rw [Function.update_of_ne hxo, Function.update_of_ne hxn]
    exact hfam.head x h' hin
  · by_cases hxo : x = old
    · subst hxo
      exact (isRing_nil_iff.mp hself).1
    · by_cases hxn : x = new
      · subst hxn
        rw [Function.update_of_ne hne, Function.update_self] at hl
        exact hnext hl
      · obtain ⟨hl, hout, hsame⟩ := hfree hxo hxn hl hx
        rw [hsame.1]
        exact hfam.loop x hl hout
  · by_cases hxo : x = old
    · subst hxo
      exact hself
    · obtain ⟨hl, hout, hsame⟩ := hfree hxo (fun heq => hok (heq ▸ hokx)) hl hx
      refine (hfam.self x hokx hl hout).frame fun y hy => ?_
      obtain rfl := List.mem_singleton.mp hy
      exact hsame

/-- Taking the first element off a list. -/
theorem popFront (hfam : Family ok m seq) (hh : ∀ h', h ∉ seq h') :
    m.popFront h = match seq h with
      | [] => (none, m)
      | x :: _ => (some x, m.remove x) := by
  cases hl : seq h with
  | nil => exact if_pos (hfam.loop h hl hh)
  | cons x l =>
      have hring := hfam.ring h (by rw [hl]; exact List.cons_ne_nil x l)
      rw [hl] at hring
      exact popFront_cons hring

end Family

end Ring
