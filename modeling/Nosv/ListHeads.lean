import Nosv.Lib.Ring

/-!
# Moving the head of a list

The lists of `generic/list.h`, with the pointers that may be `NULL` and
with the assertions. A function returns `none` where it reads through a
`NULL` pointer or fails an assertion. Where all links are there, the
functions do what the operations of the ring library do (`links`).

`list_move_head` and `list_replace` both give a list another head. They
agree on a list that has elements, and only there.
-/

namespace Nosv

open Ring

structure ListHead (α : Type*) where
  next : Option α
  prev : Option α
  deriving DecidableEq, Repr

/-- The hooks, by their addresses. -/
abbrev ListMemory (α : Type*) := α → ListHead α

namespace ListMemory

variable {α : Type*} [DecidableEq α]

def setNext (m : ListMemory α) (x : α) (y : Option α) : ListMemory α :=
  Function.update m x { m x with next := y }

def setPrev (m : ListMemory α) (x : α) (y : Option α) : ListMemory α :=
  Function.update m x { m x with prev := y }

def listIsHead (n : Option α) (head : α) : Bool := n = some head

def listEmpty (m : ListMemory α) (head : α) : Bool := listIsHead (m head).next head

def listNodeIsInsertedInAnyList (m : ListMemory α) (n : α) : Option Bool :=
  match (m n).next with
  | none => if (m n).prev = none then some false else none
  | some next =>
      if next = n then if (m n).prev = some n then some false else none
      else if (m n).prev ≠ none ∧ listIsHead (m n).prev n = false then some true
      else none

def listInit (m : ListMemory α) (head : α) : ListMemory α :=
  (m.setNext head (some head)).setPrev head (some head)

/-- `__list_add` -/
def listAddBetween (m : ListMemory α) (prev n next : α) : Option (ListMemory α) :=
  if (m prev).prev ≠ none ∧ (m next).next ≠ none then
    let m := m.setPrev next (some n)
    let m := m.setNext prev (some n)
    let m := m.setNext n (some next)
    some (m.setPrev n (some prev))
  else none

def listAddTail (m : ListMemory α) (head n : α) : Option (ListMemory α) :=
  if m.listNodeIsInsertedInAnyList n = some false ∧ (m head).next ≠ none then
    (m head).prev.bind fun prev => m.listAddBetween prev n head
  else none

def listReplace (m : ListMemory α) (old new : α) : Option (ListMemory α) :=
  if (m old).next ≠ none ∧ (m old).prev ≠ none then
    if listIsHead (m old).next old then some (m.listInit new)
    else if m.listNodeIsInsertedInAnyList old = some true then
      let m := m.setNext new (m old).next
      let m := m.setPrev new (m old).prev
      (m new).next.bind fun next =>
        let m := m.setPrev next (some new)
        (m new).prev.map fun prev =>
          let m := m.setNext prev (some new)
          m.listInit old
    else none
  else none

def listMoveHead (m : ListMemory α) (old new : α) : Option (ListMemory α) :=
  (m old).prev.bind fun prev =>
    let m := m.setNext prev (some new)
    (m old).next.map fun next =>
      let m := m.setPrev next (some new)
      let m := m.setPrev new (m old).prev
      let m := m.setNext new (m old).next
      m.listInit old

omit [DecidableEq α] in
/-- The hooks `l`, in this order, are the list with head `h`: `next` and
`prev` are inverse all the way round. -/
structure IsList (m : ListMemory α) (h : α) (l : List α) : Prop where
  nodup : (h :: l).Nodup
  chain : (h :: (l ++ [h])).IsChain fun x y => (m x).next = some y ∧ (m y).prev = some x

/-! ## The ring of a list -/

/-- The links, where a hook without one is linked to itself. -/
def links (m : ListMemory α) : Links α := ⟨fun x => (m x).next.getD x, fun x => (m x).prev.getD x⟩

/-- Both links of the hook are there. -/
def Linked (m : ListMemory α) (x : α) : Prop := (m x).next ≠ none ∧ (m x).prev ≠ none

variable {m m' : ListMemory α} {h n x y old new : α} {l : List α}

omit [DecidableEq α] in
theorem links_next (hy : (m x).next = some y) : (links m).next x = y := by
  rw [links]
  simp [hy]

omit [DecidableEq α] in
theorem links_prev (hy : (m x).prev = some y) : (links m).prev x = y := by
  rw [links]
  simp [hy]

theorem links_setNext : links (m.setNext x (some y)) = { links m with next := Function.update (links m).next x y } := by
  rw [links, links, Links.mk.injEq]
  constructor <;> funext z <;> by_cases hz : z = x <;> simp [setNext, hz]

theorem links_setPrev : links (m.setPrev x (some y)) = { links m with prev := Function.update (links m).prev x y } := by
  rw [links, links, Links.mk.injEq]
  constructor <;> funext z <;> by_cases hz : z = x <;> simp [setPrev, hz]

theorem links_listInit : links (m.listInit h) = (links m).init h := by
  rw [listInit, links_setPrev, links_setNext]
  rfl

theorem Linked.setNext (hx : m.Linked x) (y z : α) : (m.setNext y (some z)).Linked x := by
  by_cases hxy : x = y
  · subst hxy
    exact ⟨by simp [ListMemory.setNext], by simpa [ListMemory.setNext] using hx.2⟩
  · simpa [Linked, ListMemory.setNext, hxy] using hx

theorem Linked.setPrev (hx : m.Linked x) (y z : α) : (m.setPrev y (some z)).Linked x := by
  by_cases hxy : x = y
  · subst hxy
    exact ⟨by simpa [ListMemory.setPrev] using hx.1, by simp [ListMemory.setPrev]⟩
  · simpa [Linked, ListMemory.setPrev, hxy] using hx

theorem linked_both (x y z : α) : ((m.setPrev x (some y)).setNext x (some z)).Linked x := by
  simp [Linked, ListMemory.setNext, ListMemory.setPrev]

theorem Linked.listInit (hx : m.Linked x) (h : α) : (m.listInit h).Linked x :=
  (hx.setNext h h).setPrev h h

omit [DecidableEq α] in
/-- What a chain goes through has its links. -/
theorem linked_of_chain : ∀ {l : List α},
    l.IsChain (fun x y => (m x).next = some y ∧ (m y).prev = some x) →
      (∀ x ∈ l.dropLast, (m x).next ≠ none) ∧ ∀ y ∈ l.tail, (m y).prev ≠ none
  | [], _ => by simp
  | [a], _ => by simp
  | a :: b :: l, hchain => by
      obtain ⟨⟨hnext, hprev⟩, hrest⟩ := List.isChain_cons_cons.mp hchain
      obtain ⟨hnexts, hprevs⟩ := linked_of_chain hrest
      refine ⟨fun x hx => ?_, fun y hy => ?_⟩
      · rw [List.dropLast_cons_cons] at hx
        rcases List.mem_cons.mp hx with rfl | hx
        · simp [hnext]
        · exact hnexts x hx
      · rcases List.mem_cons.mp hy with rfl | hy
        · simp [hprev]
        · exact hprevs y hy

omit [DecidableEq α] in
theorem chain_of_linked : ∀ {l : List α}, (∀ x ∈ l, m.Linked x) →
    l.IsChain (fun x y => (links m).next x = y ∧ (links m).prev y = x) →
      l.IsChain fun x y => (m x).next = some y ∧ (m y).prev = some x
  | [], _, _ => .nil
  | [a], _, _ => .singleton a
  | a :: b :: l, hlinked, hchain => by
      obtain ⟨⟨hnext, hprev⟩, hrest⟩ := List.isChain_cons_cons.mp hchain
      obtain ⟨c, hc⟩ := Option.ne_none_iff_exists'.mp (hlinked a List.mem_cons_self).1
      obtain ⟨d, hd⟩ := Option.ne_none_iff_exists'.mp (hlinked b (by simp)).2
      rw [links_next hc] at hnext
      rw [links_prev hd] at hprev
      refine List.isChain_cons_cons.mpr ⟨⟨hnext ▸ hc, hprev ▸ hd⟩, ?_⟩
      exact chain_of_linked (fun x hx => hlinked x (List.mem_cons_of_mem a hx)) hrest

omit [DecidableEq α] in
theorem isList_iff : m.IsList h l ↔ (∀ x ∈ h :: l, m.Linked x) ∧ IsRing (links m) h l := by
  constructor
  · rintro ⟨hnodup, hchain⟩
    obtain ⟨hnexts, hprevs⟩ := linked_of_chain hchain
    refine ⟨fun x hx => ⟨hnexts x ?_, hprevs x ?_⟩, hnodup, ?_⟩
    · rw [← List.cons_append, List.dropLast_concat]
      exact hx
    · rw [List.tail_cons, List.mem_append, List.mem_singleton]
      exact (List.mem_cons.mp hx).symm
    · exact hchain.imp fun x y hxy => ⟨links_next hxy.1, links_prev hxy.2⟩
  · rintro ⟨hlinked, hnodup, hchain⟩
    refine ⟨hnodup, chain_of_linked (fun x hx => hlinked x ?_) hchain⟩
    simpa [or_comm] using hx

/-! ## The functions and the operations -/

theorem links_listMoveHead (hold : m.Linked old) (new : α) :
    ∃ m', m.listMoveHead old new = some m' ∧ links m' = (links m).moveHead old new
      ∧ ∀ x, m.Linked x ∨ x = new → m'.Linked x := by
  obtain ⟨p, hp⟩ := Option.ne_none_iff_exists'.mp hold.2
  have h₁ := hold.setNext p new
  obtain ⟨n, hn⟩ := Option.ne_none_iff_exists'.mp h₁.1
  have h₂ := h₁.setPrev n new
  obtain ⟨q, hq⟩ := Option.ne_none_iff_exists'.mp h₂.2
  have h₃ := h₂.setPrev new q
  obtain ⟨r, hr⟩ := Option.ne_none_iff_exists'.mp h₃.1
  refine ⟨((((m.setNext p (some new)).setPrev n (some new)).setPrev new (some q)).setNext new (some r)).listInit old,
    ?_, ?_, fun x hx => Linked.listInit ?_ old⟩
  · rw [listMoveHead, hp, Option.bind_some]
    dsimp only
    rw [hn, Option.map_some, hq, hr]
  · have hp' := links_prev hp
    have hn' := links_next hn
    have hq' := links_prev hq
    have hr' := links_next hr
    rw [links_setNext] at hn'
    rw [links_setPrev, links_setNext] at hq'
    rw [links_setPrev, links_setPrev, links_setNext] at hr'
    dsimp only at hn' hq' hr'
    rw [links_listInit, links_setNext, links_setPrev, links_setPrev, links_setNext, Links.moveHead]
    dsimp only
    obtain rfl : r = n := hr'.symm.trans hn'
    rw [hp', hn', hq']
  · rcases hx with hx | rfl
    · exact (((hx.setNext p new).setPrev n new).setPrev new q).setNext new r
    · exact linked_both x q r

/-- A head with elements is inserted. -/
theorem inserted_of_isList (hlist : m.IsList old l) (hl : l ≠ []) :
    m.listNodeIsInsertedInAnyList old = some true ∧ listIsHead (m old).next old = false := by
  obtain ⟨hlinked, hring⟩ := isList_iff.mp hlist
  obtain ⟨a, ha⟩ := Option.ne_none_iff_exists'.mp (hlinked old List.mem_cons_self).1
  obtain ⟨b, hb⟩ := Option.ne_none_iff_exists'.mp (hlinked old List.mem_cons_self).2
  have hnext : a ≠ old := by
    rintro rfl
    exact hl (hring.next_eq_iff.mp (links_next ha))
  have hprev : b ≠ old := by
    rintro rfl
    have hlast := hring.prev_head.1
    rw [links_prev hb, List.getLast_cons hl] at hlast
    exact (List.nodup_cons.mp hring.nodup).1 (hlast ▸ List.getLast_mem hl)
  simp [listNodeIsInsertedInAnyList, listIsHead, ha, hb, hnext, hprev]

theorem links_listReplace (hlist : m.IsList old l) :
    ∃ m', m.listReplace old new = some m' ∧ links m' = (links m).replace old new
      ∧ ∀ x, m.Linked x ∨ x = new → m'.Linked x := by
  obtain ⟨hlinked, hring⟩ := isList_iff.mp hlist
  have hold := hlinked old List.mem_cons_self
  by_cases hl : l = []
  · have hself : (links m).next old = old := hring.next_eq_iff.mpr hl
    obtain ⟨a, ha⟩ := Option.ne_none_iff_exists'.mp hold.1
    have hhead : listIsHead (m old).next old = true := by
      rw [links_next ha] at hself
      simp [listIsHead, ha, hself]
    refine ⟨m.listInit new, ?_, ?_, fun x hx => ?_⟩
    · rw [listReplace, if_pos ⟨hold.1, hold.2⟩, if_pos hhead]
    · rw [links_listInit, Links.replace, if_pos hself]
    · rcases hx with hx | rfl
      · exact hx.listInit new
      · simp [listInit, Linked, ListMemory.setNext, ListMemory.setPrev]
  · obtain ⟨hinserted, hhead⟩ := inserted_of_isList hlist hl
    obtain ⟨a, ha⟩ := Option.ne_none_iff_exists'.mp hold.1
    obtain ⟨b, hb⟩ := Option.ne_none_iff_exists'.mp (hold.setNext new a).2
    have h₂ : ((m.setNext new (some a)).setPrev new (some b)).Linked new := by
      simp [Linked, ListMemory.setNext, ListMemory.setPrev]
    obtain ⟨c, hc⟩ := Option.ne_none_iff_exists'.mp h₂.1
    have h₃ := h₂.setPrev c new
    obtain ⟨d, hd⟩ := Option.ne_none_iff_exists'.mp h₃.2
    refine ⟨((((m.setNext new (some a)).setPrev new (some b)).setPrev c (some new)).setNext d (some new)).listInit old,
      ?_, ?_, fun x hx => Linked.listInit ?_ old⟩
    · rw [listReplace, if_pos ⟨hold.1, hold.2⟩, hhead, if_neg Bool.false_ne_true, if_pos hinserted, ha]
      dsimp only
      rw [hb, hc, Option.bind_some, hd, Option.map_some]
    · have ha' := links_next ha
      have hb' := links_prev hb
      have hc' := links_next hc
      have hd' := links_prev hd
      rw [links_setNext] at hb'
      rw [links_setPrev, links_setNext] at hc'
      rw [links_setPrev, links_setPrev, links_setNext] at hd'
      dsimp only at hb' hc' hd'
      have hne : (links m).next old ≠ old := fun heq => hl (hring.next_eq_iff.mp heq)
      rw [links_listInit, links_setNext, links_setPrev, links_setPrev, links_setNext, Links.replace, if_neg hne]
      dsimp only
      rw [ha', hb', hc', hd']
    · rcases hx with hx | rfl
      · exact (((hx.setNext new a).setPrev new b).setPrev c new).setNext d new
      · exact (h₂.setPrev c x).setNext d x

theorem links_listAddTail (hlist : m.IsList h l) (hn : m.listNodeIsInsertedInAnyList n = some false) :
    ∃ m', m.listAddTail h n = some m' ∧ links m' = (links m).addTail h n
      ∧ ∀ x, m.Linked x ∨ x = n → m'.Linked x := by
  obtain ⟨hlinked, hring⟩ := isList_iff.mp hlist
  have hhead := hlinked h List.mem_cons_self
  obtain ⟨b, hb⟩ := Option.ne_none_iff_exists'.mp hhead.2
  have hlast : b ∈ h :: l := by
    have hprev := hring.prev_head.1
    rw [links_prev hb] at hprev
    exact hprev ▸ List.getLast_mem _
  refine ⟨(((m.setPrev h (some n)).setNext b (some n)).setNext n (some h)).setPrev n (some b), ?_, ?_, fun x hx => ?_⟩
  · rw [listAddTail, if_pos ⟨hn, hhead.1⟩, hb, Option.bind_some, listAddBetween, if_pos ⟨(hlinked b hlast).2, hhead.1⟩]
  · rw [links_setPrev, links_setNext, links_setNext, links_setPrev, Links.addTail, links_prev hb]
    rfl
  · rcases hx with hx | rfl
    · exact (((hx.setPrev h n).setNext b n).setNext n h).setPrev n b
    · simp [Linked, ListMemory.setNext, ListMemory.setPrev]

/-! ## Adding at the end -/

theorem IsList.addTail (hlist : m.IsList h l) (hn : m.listNodeIsInsertedInAnyList n = some false)
    (hout : n ∉ h :: l) : ∃ m', m.listAddTail h n = some m' ∧ m'.IsList h (l ++ [n]) := by
  obtain ⟨hlinked, hring⟩ := isList_iff.mp hlist
  obtain ⟨m', hadd, hlinks, hlinked'⟩ := links_listAddTail hlist hn
  refine ⟨m', hadd, isList_iff.mpr ⟨fun x hx => hlinked' x ?_, hlinks ▸ hring.addTail hout⟩⟩
  rw [← List.cons_append, List.mem_append, List.mem_singleton] at hx
  exact hx.imp_left (hlinked x)

/-! ## Moving the head -/

/-- `list_move_head` and `list_replace` reach the same state, in which
`new` is the head of the list and `old` is that of an empty one. -/
def MovesAgree (m : ListMemory α) (old new : α) (l : List α) : Prop :=
  ∃ m', m.listMoveHead old new = some m' ∧ m.listReplace old new = some m' ∧ m'.IsList new l ∧ m'.IsList old []

/-- What is written, in the one order and in the other -/
theorem writes_agree {a b : α} (ha : a ≠ new) (hb : b ≠ new) :
    (((m.setNext b (some new)).setPrev a (some new)).setPrev new (some b)).setNext new (some a)
      = (((m.setNext new (some a)).setPrev new (some b)).setPrev a (some new)).setNext b (some new) := by
  funext x
  by_cases hx : x = new
  · subst hx
    simp [setNext, setPrev, ha.symm, hb.symm]
  · by_cases hxa : x = a
    · subst hxa
      by_cases hab : x = b
      · subst hab
        simp [setNext, setPrev, hx]
      · simp [setNext, setPrev, hx, hab]
    · by_cases hxb : x = b
      · subst hxb
        simp [setNext, setPrev, hx, hxa]
      · simp [setNext, setPrev, hx, hxa, hxb]

theorem moves_same (hlist : m.IsList old l) (hnew : new ∉ old :: l) (hl : l ≠ []) :
    m.listMoveHead old new = m.listReplace old new := by
  obtain ⟨hlinked, hring⟩ := isList_iff.mp hlist
  have hold := hlinked old List.mem_cons_self
  obtain ⟨hinserted, hhead⟩ := inserted_of_isList hlist hl
  obtain ⟨a, ha⟩ := Option.ne_none_iff_exists'.mp hold.1
  obtain ⟨b, hb⟩ := Option.ne_none_iff_exists'.mp hold.2
  have hain : a ∈ l := by
    obtain ⟨a', l', rfl⟩ := List.exists_cons_of_ne_nil hl
    rw [← links_next ha, hring.next_head.1]
    exact List.mem_cons_self
  have hbin : b ∈ l := by
    rw [← links_prev hb, hring.prev_head.1, List.getLast_cons hl]
    exact List.getLast_mem hl
  have hne : ∀ {x}, x ∈ l → x ≠ old ∧ x ≠ new := fun hx =>
    ⟨fun heq => (List.nodup_cons.mp hring.nodup).1 (heq ▸ hx), fun heq => hnew (heq ▸ List.mem_cons_of_mem old hx)⟩
  obtain ⟨haold, hanew⟩ := hne hain
  obtain ⟨hbold, hbnew⟩ := hne hbin
  have hnewold : old ≠ new := fun heq => hnew (heq ▸ List.mem_cons_self)
  have hmove : m.listMoveHead old new
      = some (((((m.setNext b (some new)).setPrev a (some new)).setPrev new (some b)).setNext new (some a)).listInit
        old) := by
    simp [listMoveHead, setNext, setPrev, ha, hb, haold.symm, hbold.symm, hnewold]
  rw [ha] at hhead
  have hreplace : m.listReplace old new
      = some (((((m.setNext new (some a)).setPrev new (some b)).setPrev a (some new)).setNext b (some new)).listInit
        old) := by
    simp [listReplace, setNext, setPrev, ha, hb, hhead, hinserted, hanew.symm, hnewold]
  rw [hmove, hreplace, writes_agree hanew hbnew]

/-- The new head of an empty list is linked to the old one. -/
theorem prev_moved (hring : IsRing (links m) old []) (hne : new ≠ old) :
    ((links m).moveHead old new).prev new = old := by
  have hprev := (isRing_nil_iff.mp hring).2
  simp [Links.moveHead, Links.init, Links.join, hprev, hne, hne.symm]

/-- The two ways of moving a list agree on the lists that are not empty. -/
theorem moves_agree_iff (hlist : m.IsList old l) (hnew : new ∉ old :: l) : m.MovesAgree old new l ↔ l ≠ [] := by
  obtain ⟨hlinked, hring⟩ := isList_iff.mp hlist
  have hne : new ≠ old := fun heq => hnew (heq ▸ List.mem_cons_self)
  obtain ⟨m', hmove, hlinks, hlinked'⟩ := links_listMoveHead (hlinked old List.mem_cons_self) new
  constructor
  · rintro ⟨m'', hmove', -, hnewlist, -⟩ rfl
    obtain rfl := Option.some.inj (hmove.symm.trans hmove')
    have hself := (isRing_nil_iff.mp (isList_iff.mp hnewlist).2).2
    rw [hlinks, prev_moved hring hne] at hself
    exact hne hself.symm
  · intro hl
    obtain ⟨hmoved, hself, -⟩ := hring.moveHead hl hnew
    refine ⟨m', hmove, moves_same hlist hnew hl ▸ hmove, isList_iff.mpr ⟨fun x hx => hlinked' x ?_, hlinks ▸ hmoved⟩,
      isList_iff.mpr ⟨fun x hx => hlinked' x ?_, hlinks ▸ hself⟩⟩
    · rcases List.mem_cons.mp hx with rfl | hx
      · exact Or.inr rfl
      · exact Or.inl (hlinked x (List.mem_cons_of_mem old hx))
    · exact Or.inl (hlinked x (List.mem_singleton.mp hx ▸ List.mem_cons_self))

/-- The head `0` of the list of `1` and `2` -/
def twoHooks : ListMemory Nat := fun x =>
  if x = 0 then ⟨some 1, some 2⟩ else if x = 1 then ⟨some 2, some 0⟩ else if x = 2 then ⟨some 0, some 1⟩
  else ⟨none, none⟩

theorem moves_agree_iff_two : twoHooks.MovesAgree 0 3 [1, 2] ↔ [1, 2] ≠ [] := by
  refine moves_agree_iff ⟨by decide, ?_⟩ (by decide)
  simp [twoHooks]

/-- An empty list, and a head next to it -/
theorem moves_differ_empty :
    ∃ m : ListMemory Nat, m.IsList 0 [] ∧ 1 ∉ [0] ∧ ¬ m.MovesAgree 0 1 [] := by
  have hlist : IsList (fun x : Nat => if x = 0 then ⟨some 0, some 0⟩ else ⟨none, none⟩) 0 [] := ⟨by decide, by simp⟩
  refine ⟨_, hlist, by decide, ?_⟩
  rintro ⟨m', hmove, hreplace, -, -⟩
  have hprev := congrArg (fun o => o.map fun m : ListMemory Nat => (m 1).prev) (hmove.trans hreplace.symm)
  revert hprev
  decide

/-- What is added at the end of the moved head of an empty list does not
get into its list. -/
theorem addTail_moved {m₁ m₂ : ListMemory α} (hlist : m.IsList old []) (hne : new ≠ old)
    (hnew : n ≠ new) (hmove : m.listMoveHead old new = some m₁) (hadd : m₁.listAddTail new n = some m₂) :
    m₂.listEmpty new = true := by
  obtain ⟨hnext, hprev⟩ := (List.isChain_cons_cons.mp hlist.chain).1
  have hm₁ : (m₁ new).next = some new ∧ (m₁ new).prev = some old := by
    simp [listMoveHead, setNext, setPrev, hprev, hne, hne.symm] at hmove
    obtain rfl := hmove
    simp [listInit, setNext, setPrev, hne]
  obtain ⟨-, hadd⟩ := Option.ite_none_right_eq_some.mp hadd
  rw [hm₁.2, Option.bind_some, listAddBetween] at hadd
  obtain ⟨-, hadd⟩ := Option.ite_none_right_eq_some.mp hadd
  obtain rfl := Option.some.inj hadd
  simp [listEmpty, listIsHead, setNext, setPrev, hm₁.1, hne, hnew.symm]

end ListMemory

end Nosv
