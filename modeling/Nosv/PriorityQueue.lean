import Mathlib.Data.List.Perm.Basic
import Mathlib.Order.Lattice
import Nosv.Lib.Ring
import Nosv.Lib.Run
import Nosv.Lib.TreeLinks
import Nosv.Task

/-!
# Scheduler queues in memory

`scheduler_queue_t` as its pointers have it. `Nosv.Queue` takes a queue
for a list of tasks or a tree of chains; here the list is a circle of
`list_hook`s, the tree is a graph of `tree_hook`s, and the tasks that share
a priority hang in a circle from the one of them that is in the tree.
Popping that task moves its neighbour into the tree with `RB_TRANSPLANT`,
and the first task with a priority turns the whole list into one such
circle.

The queue is compared with its history: the queued tasks in the order in
which they were added. `byPriority` sorts the history by descending
priority and keeps the order of equal ones; the queue holds exactly this
list, read from the largest node of the tree down (`Reads`), and a search
gives its first element.

The list head and the root of the tree share storage in the source. They
are apart here: once priorities are enabled the list head is not read
any more, and before that the root is not.
-/

namespace Nosv

open RBTree Ring Run

/-! ## Stable order -/

section StableOrder

variable {α : Type*} (key : α → Int)

/-- By descending key; equal keys stay in the order of the list. -/
def byPriority (l : List α) : List α := l.mergeSort fun a b => decide (key b ≤ key a)

theorem byPriority_pairwise (l : List α) : (byPriority key l).Pairwise fun a b => key b ≤ key a := by
  have hsorted : (byPriority key l).Pairwise fun a b => decide (key b ≤ key a) = true := by
    refine List.pairwise_mergeSort (fun a b c hab hbc => ?_) (fun a b => ?_) l
    · simp only [decide_eq_true_eq] at hab hbc ⊢
      omega
    · simp only [Bool.or_eq_true, decide_eq_true_eq]
      omega
  exact hsorted.imp fun hab => of_decide_eq_true hab

/-- The sort keeps the elements of one key as they are. -/
theorem filter_byPriority (l : List α) (k : Int) :
    (byPriority key l).filter (key · = k) = l.filter (key · = k) := by
  have hlevel : (l.filter (key · = k)).Pairwise fun a b => decide (key b ≤ key a) = true := by
    refine List.pairwise_iff_forall_sublist.mpr fun {a b} hsub => ?_
    have hmem := hsub.subset
    simp only [List.cons_subset, List.mem_filter, decide_eq_true_eq] at hmem
    simp [hmem.1.2, hmem.2.1.2]
  have hsub : (l.filter (key · = k)).Sublist (byPriority key l) := by
    refine List.sublist_mergeSort (fun a b c hab hbc => ?_) (fun a b => ?_) hlevel
      List.filter_sublist
    · simp only [decide_eq_true_eq] at hab hbc ⊢
      omega
    · simp only [Bool.or_eq_true, decide_eq_true_eq]
      omega
  have hfilter := hsub.filter (key · = k)
  rw [List.filter_filter] at hfilter
  simp only [Bool.and_self] at hfilter
  refine (hfilter.eq_of_length ?_).symm
  exact ((List.mergeSort_perm l _).filter _).length_eq.symm

/-- In a sorted list the elements of the largest key come first. -/
theorem split_level {k : Int} :
    ∀ {l : List α}, l.Pairwise (fun a b => key b ≤ key a) → (∀ a ∈ l, key a ≤ k) →
      l = l.filter (key · = k) ++ l.filter (key · ≠ k)
  | [], _, _ => rfl
  | a :: l, hsorted, hle => by
      obtain ⟨ha, hsorted⟩ := List.pairwise_cons.mp hsorted
      by_cases hak : key a = k
      · have ih := split_level hsorted fun b hb => hle b (List.mem_cons_of_mem a hb)
        simpa [hak] using ih
      · have hne : ∀ b ∈ a :: l, key b ≠ k := by
          intro b hb
          have := hle a List.mem_cons_self
          rcases List.mem_cons.mp hb with rfl | hb
          · exact hak
          · have := ha b hb
            omega
        have hnone : (a :: l).filter (key · = k) = [] :=
          List.filter_eq_nil_iff.mpr fun b hb => by simpa using hne b hb
        have hall : (a :: l).filter (key · ≠ k) = a :: l :=
          List.filter_eq_self.mpr fun b hb => by simpa using hne b hb
        rw [hnone, hall, List.nil_append]

/-- A sorted list is the concatenation of its levels. -/
theorem flatMap_levels :
    ∀ {ks : List Int} {l : List α}, ks.Pairwise (· > ·) → l.Pairwise (fun a b => key b ≤ key a) →
      (∀ a ∈ l, key a ∈ ks) → ks.flatMap (fun k => l.filter (key · = k)) = l
  | [], l, _, _, hkeys => by
      rw [List.eq_nil_iff_forall_not_mem.mpr fun a ha => List.not_mem_nil (hkeys a ha)]
      rfl
  | k :: ks, l, hks, hsorted, hkeys => by
      obtain ⟨hk, hks⟩ := List.pairwise_cons.mp hks
      have hle : ∀ a ∈ l, key a ≤ k := by
        intro a ha
        rcases List.mem_cons.mp (hkeys a ha) with heq | hin
        · omega
        · have := hk _ hin
          omega
      have hrest := flatMap_levels (l := l.filter (key · ≠ k)) hks (hsorted.filter _) fun a ha => by
        obtain ⟨ha, hne⟩ := List.mem_filter.mp ha
        exact (List.mem_cons.mp (hkeys a ha)).resolve_left (of_decide_eq_true hne)
      have hsame : ∀ k' ∈ ks, (l.filter (key · ≠ k)).filter (key · = k') = l.filter (key · = k') := by
        intro k' hk'
        rw [List.filter_filter]
        refine List.filter_congr fun a _ => ?_
        have := hk k' hk'
        simp only [Bool.and_eq_left_iff_imp, decide_eq_true_eq]
        omega
      rw [List.flatMap_cons, ← List.flatMap_congr hsame, hrest]
      exact (split_level key hsorted hle).symm

/-- The levels of a list, from the largest key down, are the sorted list. -/
theorem flatMap_filter {ks : List Int} {l : List α} (hks : ks.Pairwise (· > ·))
    (hkeys : ∀ a ∈ l, key a ∈ ks) :
    ks.flatMap (fun k => l.filter (key · = k)) = byPriority key l := by
  have hsorted := byPriority_pairwise key l
  have hmem : ∀ a ∈ byPriority key l, key a ∈ ks := fun a ha => hkeys a (List.mem_mergeSort.mp ha)
  rw [← flatMap_levels key hks hsorted hmem]
  exact List.flatMap_congr fun k _ => (filter_byPriority key l k).symm

end StableOrder

/-! ## The queue -/

/-- The `list_head_t`s: the `list_hook` of a task, `tasks` of the queue and
the local variable `previous` of `scheduler_add_queue`. -/
inductive QHook where
  | task (t : TaskId)
  | queue
  | previous
  deriving DecidableEq

/-- `list_elem`, for the hook of a task. -/
def QHook.elem : QHook → Option TaskId
  | .task t => some t
  | _ => none

structure QueueMem where
  priorityEnabled : Bool
  links : Links QHook
  tasksPriority : TreeMem TaskId

/-- A `tree_hook` with every byte zero; `RB_BLACK` is zero. -/
def zeroHook : Hook TaskId := ⟨none, none, none, .black⟩

namespace QueueMem

/-- `task_priority_compare` -/
def taskPriorityCompare (priority : TaskId → Int) (a b : TaskId) : Ordering :=
  compare (priority a) (priority b)

/-- `scheduler_init_queue` -/
def schedulerInitQueue (q : QueueMem) : QueueMem :=
  { q with links := q.links.init .queue, priorityEnabled := false }

/-- `scheduler_find_in_queue` -/
def schedulerFindInQueue (q : QueueMem) : Option TaskId :=
  if q.priorityEnabled then max? q.tasksPriority.tree
  else (q.links.front .queue).bind QHook.elem

/-- The part of `scheduler_pop_queue` that takes a task out of the tree. -/
def popTree (q : QueueMem) (t : TaskId) : QueueMem :=
  match (q.links.front (.task t)).bind QHook.elem with
  | some next =>
      { q with
        -- change the list head to be the next task
        links := q.links.remove (.task t)
        tasksPriority := transplant q.tasksPriority t next }
  | none => { q with tasksPriority := q.tasksPriority.remove t }

/-- `memset` of the `tree_hook`. -/
def cleanTreeHook (q : QueueMem) (t : TaskId) : QueueMem :=
  { q with tasksPriority :=
      { q.tasksPriority with hook := Function.update q.tasksPriority.hook t zeroHook } }

/-- `scheduler_pop_queue` -/
def schedulerPopQueue (q : QueueMem) (t : TaskId) : QueueMem :=
  let q :=
    if q.priorityEnabled then (q.popTree t).cleanTreeHook t
    else { q with links := (q.links.popFront .queue).2 }
  { q with links := q.links.init (.task t) }

/-- `RB_INSERT` of a task whose list hook is initialised. -/
def insertAlone (priority : TaskId → Int) (q : QueueMem) (t : TaskId) : QueueMem :=
  { q with
    links := q.links.init (.task t)
    tasksPriority := q.tasksPriority.insert (taskPriorityCompare priority) t }

/-- The part of `scheduler_add_queue` that makes a tree of the list. -/
def enablePriorities (priority : TaskId → Int) (q : QueueMem) : QueueMem :=
  let links := (q.links.init .previous).replace .queue .previous
  let tree := q.tasksPriority.empty
  match (links.front .previous).bind QHook.elem with
  | some newHead =>
      ⟨true, links.remove .previous, tree.insert (taskPriorityCompare priority) newHead⟩
  | none => ⟨true, links, tree⟩

/-- `scheduler_add_queue` -/
def schedulerAddQueue (priority : TaskId → Int) (q : QueueMem) (t : TaskId) : QueueMem :=
  if q.priorityEnabled then
    match find (taskPriorityCompare priority t) q.tasksPriority.tree with
    | some found => { q with links := q.links.addTail (.task found) (.task t) }
    | none => q.insertAlone priority t
  else if priority t ≠ 0 then
    (q.enablePriorities priority).insertAlone priority t
  else
    { q with links := q.links.addTail .queue (.task t) }

end QueueMem

/-! ## Runs -/

/-- A queue with its history: the queued tasks in the order in which they
were added, and the tasks that were found and have not been popped since. -/
structure QState where
  mem : QueueMem
  priority : TaskId → Int
  hist : List TaskId
  found : List TaskId

inductive QOp where
  | setPriority (t : TaskId) (p : Int)
  | add (t : TaskId)
  | find
  | pop (t : TaskId)
  deriving DecidableEq

namespace QState

open QueueMem

/-- The queue as `scheduler_init_queue` leaves it, in any memory. -/
def start (mem : QueueMem) (priority : TaskId → Int) : QState :=
  ⟨mem.schedulerInitQueue, priority, [], []⟩

/-- A task is added when it is not queued, its priority changes only then,
and only a task that was found is popped. -/
def step (s : QState) : QOp → Option QState
  | .setPriority t p =>
      if t ∈ s.hist then none else some { s with priority := Function.update s.priority t p }
  | .add t =>
      if t ∈ s.hist then none
      else some { s with
        mem := s.mem.schedulerAddQueue s.priority t
        hist := s.hist ++ [t] }
  | .find => some { s with found := s.mem.schedulerFindInQueue.toList ++ s.found }
  | .pop t =>
      if t ∈ s.found then
        some { s with
          mem := s.mem.schedulerPopQueue t
          hist := s.hist.erase t
          found := s.found.filter (· ≠ t) }
      else none

/-- The queued tasks of one priority, the earliest first. -/
def level (s : QState) (p : Int) : List TaskId := s.hist.filter (s.priority · = p)

/-- Before the first priority: one circle of tasks. -/
structure ListInv (s : QState) : Prop where
  zero : ∀ t ∈ s.hist, s.priority t = 0
  ring : IsRing s.mem.links .queue (s.hist.map .task)

/-- Afterwards: the memory holds the tree `T` of the earliest tasks of every
priority, and the others hang from them. -/
structure TreeInv (s : QState) (T : RB TaskId) : Prop where
  holds : s.mem.tasksPriority.Holds T
  sorted : (inorder T).Pairwise fun a b => s.priority a < s.priority b
  cover : ∀ t ∈ s.hist, ∃ h ∈ inorder T, s.priority h = s.priority t
  head : ∀ h ∈ inorder T, ∃ rest, s.level (s.priority h) = h :: rest
    ∧ IsRing s.mem.links (.task h) (rest.map .task)

structure Inv (s : QState) : Prop where
  nodup : s.hist.Nodup
  list : s.mem.priorityEnabled = false → s.ListInv
  tree : s.mem.priorityEnabled = true → ∃ T, s.TreeInv T
  found : ∀ t ∈ s.found, (s.level (s.priority t)).head? = some t

theorem mem_level {s : QState} {p : Int} {t : TaskId} :
    t ∈ s.level p ↔ t ∈ s.hist ∧ s.priority t = p := by
  simp [level]

/-! ### Levels and circles -/

variable {s : QState} {T : RB TaskId} {t h : TaskId} {p : Int}

/-- A circle depends on the hooks of its level only. -/
theorem ring_congr {m m' : Links QHook} {l rest : List TaskId} (hl : l = h :: rest)
    (hring : IsRing m (.task h) (rest.map .task)) (hsame : ∀ u ∈ l, m.Same m' (.task u)) :
    IsRing m' (.task h) (rest.map .task) := by
  refine hring.frame fun x hx => ?_
  rw [← List.map_cons, ← hl] at hx
  obtain ⟨u, hu, rfl⟩ := List.mem_map.mp hx
  exact hsame u hu

theorem task_mem_iff {l rest : List TaskId} (hl : l = h :: rest) {u : TaskId} :
    QHook.task u ∈ QHook.task h :: rest.map QHook.task ↔ u ∈ l := by
  rw [hl, ← List.map_cons, List.mem_map]
  constructor
  · rintro ⟨v, hv, heq⟩
    obtain rfl := QHook.task.inj heq
    exact hv
  · intro hu
    exact ⟨u, hu, rfl⟩

/-- Two nodes of the tree have different priorities. -/
theorem TreeInv.eq_of_priority (htree : s.TreeInv T) {a b : TaskId} (ha : a ∈ inorder T)
    (hb : b ∈ inorder T) (heq : s.priority a = s.priority b) : a = b := by
  have hnd : ((inorder T).map s.priority).Nodup :=
    List.pairwise_map.mpr (htree.sorted.imp fun hlt => ne_of_lt hlt)
  exact List.inj_on_of_nodup_map hnd ha hb heq

/-- The nodes of the tree are queued. -/
theorem TreeInv.mem_hist (htree : s.TreeInv T) (hh : h ∈ inorder T) : h ∈ s.hist := by
  obtain ⟨rest, hlevel, -⟩ := htree.head h hh
  exact (mem_level.mp (hlevel ▸ List.mem_cons_self)).1

/-- The earliest task of a priority is the one that is in the tree. -/
theorem TreeInv.mem_of_head (htree : s.TreeInv T) (ht : (s.level (s.priority t)).head? = some t) :
    t ∈ inorder T := by
  obtain ⟨rest, hrest⟩ := List.head?_eq_some_iff.mp ht
  have hin := (mem_level.mp (hrest ▸ List.mem_cons_self)).1
  obtain ⟨h, hh, hprio⟩ := htree.cover t hin
  obtain ⟨rest', hlevel, -⟩ := htree.head h hh
  rw [hprio, hrest] at hlevel
  obtain rfl := (List.cons.inj hlevel).1
  exact hh

theorem ordered_compare (htree : s.TreeInv T) (t : TaskId) :
    Ordered (taskPriorityCompare s.priority t) (inorder T) := by
  refine htree.sorted.imp fun {a b} hlt => ⟨fun h => ?_, fun h => ?_⟩
  · simp only [taskPriorityCompare, compare_lt_iff_lt] at h ⊢
    omega
  · simp only [taskPriorityCompare, compare_gt_iff_gt] at h ⊢
    omega

/-! ### Adding a task -/

/-- The levels after task `t` was added. -/
theorem level_add (s : QState) (mem : QueueMem) (t : TaskId) (p : Int) :
    level { s with mem := mem, hist := s.hist ++ [t] } p =
      s.level p ++ if s.priority t = p then [t] else [] := by
  simp only [level, List.filter_append]
  split <;> simp_all

theorem level_add_self (s : QState) (mem : QueueMem) (t : TaskId) :
    level { s with mem := mem, hist := s.hist ++ [t] } (s.priority t) =
      s.level (s.priority t) ++ [t] := by
  rw [level_add, if_pos rfl]

theorem level_add_of_ne (s : QState) (mem : QueueMem) (hp : s.priority t ≠ p) :
    level { s with mem := mem, hist := s.hist ++ [t] } p = s.level p := by
  rw [level_add, if_neg hp, List.append_nil]

/-- The new task joins the circle of its priority. -/
theorem TreeInv.addTail (htree : s.TreeInv T) (ht : t ∉ s.hist) (hh : h ∈ inorder T)
    (hprio : s.priority h = s.priority t) :
    TreeInv { s with
      mem := { s.mem with links := s.mem.links.addTail (.task h) (.task t) }
      hist := s.hist ++ [t] } T := by
  obtain ⟨rest, hlevel, hring⟩ := htree.head h hh
  have hnew : QHook.task t ∉ QHook.task h :: rest.map QHook.task := by
    rw [task_mem_iff hlevel]
    exact fun hin => ht (mem_level.mp hin).1
  refine ⟨htree.holds, htree.sorted, fun u hu => ?_, fun h' hh' => ?_⟩
  · rcases List.mem_append.mp hu with hu | hu
    · exact htree.cover u hu
    · rw [List.mem_singleton.mp hu]
      exact ⟨h, hh, hprio⟩
  · by_cases heq : h' = h
    · subst heq
      refine ⟨rest ++ [t], ?_, ?_⟩
      · show level _ (s.priority h') = _
        rw [hprio, level_add_self, ← hprio, hlevel, List.cons_append]
      · rw [List.map_append]
        exact hring.addTail hnew
    · have hne : s.priority h' ≠ s.priority h := fun h => heq (htree.eq_of_priority hh' hh h)
      obtain ⟨rest', hlevel', hring'⟩ := htree.head h' hh'
      refine ⟨rest', ?_, ring_congr hlevel' hring' fun u hu => same_addTail hring ?_ ?_⟩
      · exact (level_add_of_ne s _ (hprio ▸ hne.symm)).trans hlevel'
      · rw [task_mem_iff hlevel, mem_level]
        exact fun hin => hne ((mem_level.mp hu).2.symm.trans hin.2)
      · intro heq'
        exact ht (QHook.task.inj heq' ▸ (mem_level.mp hu).1)

/-- The first task of a priority gets a node. -/
theorem TreeInv.insertAlone (htree : s.TreeInv T) (ht : t ∉ s.hist)
    (hprio : ∀ h ∈ inorder T, s.priority h ≠ s.priority t) :
    ∃ T', TreeInv { s with
      mem := s.mem.insertAlone s.priority t
      hist := s.hist ++ [t] } T' := by
  have hfind : find (taskPriorityCompare s.priority t) T = none := by
    by_contra hne
    obtain ⟨h, hh⟩ := Option.ne_none_iff_exists'.mp hne
    obtain ⟨hin, heq⟩ := find_mem hh
    exact hprio h hin (compare_eq_iff_eq.mp heq).symm
  obtain ⟨T', hins⟩ : ∃ T', insert (taskPriorityCompare s.priority) t T = some T' := by
    refine Option.ne_none_iff_exists'.mp fun hnone => ?_
    rw [insert_eq_none_iff, hfind] at hnone
    cases hnone
  obtain ⟨l, r, hin, hin', hord⟩ := inorder_insert_ordered hins
  obtain ⟨hgt, hlt⟩ := hord (ordered_compare htree t)
  have hnode : t ∉ inorder T := fun h => ht (htree.mem_hist h)
  have hcases : ∀ {h}, h ∈ inorder T' → h = t ∨ h ∈ inorder T := by
    intro h hh
    simp only [hin', hin, List.mem_append, List.mem_cons] at hh ⊢
    tauto
  refine ⟨T', htree.holds.insert hnode hins, ?_, fun u hu => ?_, fun h hh => ?_⟩
  · have hsorted := htree.sorted
    rw [hin, List.pairwise_append] at hsorted
    obtain ⟨hleft, hright, hcross⟩ := hsorted
    have hbefore : ∀ a ∈ l, s.priority a < s.priority t := fun a ha => compare_gt_iff_gt.mp (hgt a ha)
    have hafter : ∀ b ∈ r, s.priority t < s.priority b := fun b hb => compare_lt_iff_lt.mp (hlt b hb)
    rw [hin', List.pairwise_append, List.pairwise_cons]
    refine ⟨hleft, ⟨hafter, hright⟩, fun a ha b hb => ?_⟩
    rcases List.mem_cons.mp hb with rfl | hb
    · exact hbefore a ha
    · exact hcross a ha b hb
  · rcases List.mem_append.mp hu with hu | hu
    · obtain ⟨h, hh, heq⟩ := htree.cover u hu
      refine ⟨h, ?_, heq⟩
      simp only [hin', hin, List.mem_append, List.mem_cons] at hh ⊢
      tauto
    · exact ⟨t, by simp [hin'], by rw [List.mem_singleton.mp hu]⟩
  · rcases hcases hh with rfl | hh
    · refine ⟨[], ?_, isRing_init _ _⟩
      have hempty : s.level (s.priority h) = [] := by
        refine List.filter_eq_nil_iff.mpr fun u hu heq => ?_
        obtain ⟨h', hh', hprio'⟩ := htree.cover u hu
        exact hprio h' hh' (hprio'.trans (of_decide_eq_true heq))
      show level _ (s.priority h) = _
      rw [level_add_self, hempty, List.nil_append]
    · obtain ⟨rest, hlevel, hring⟩ := htree.head h hh
      refine ⟨rest, (level_add_of_ne s _ (hprio h hh).symm).trans hlevel,
        ring_congr hlevel hring fun u hu => same_init ?_⟩
      intro heq
      exact ht (QHook.task.inj heq ▸ (mem_level.mp hu).1)

/-- In a list all tasks are of one level. -/
theorem ListInv.level_zero (hlist : s.ListInv) : s.level 0 = s.hist :=
  List.filter_eq_self.mpr fun t ht => by simpa using hlist.zero t ht

theorem front_task {m : Links QHook} {x : QHook} {l : List TaskId} (hring : IsRing m x (l.map .task)) :
    (m.front x).bind QHook.elem = l.head? := by
  rw [hring.front]
  cases l with
  | nil => rfl
  | cons h rest => rfl

/-- The switch to priorities makes the list one circle behind its first
task, which becomes the only node. -/
theorem ListInv.enablePriorities (hlist : s.ListInv) :
    ∃ T, TreeInv { s with mem := s.mem.enablePriorities s.priority } T
      ∧ ∀ h ∈ inorder T, s.priority h = 0 := by
  have hfresh : ∀ {l : List TaskId}, QHook.previous ∉ QHook.queue :: l.map QHook.task := by
    intro l hin
    rcases List.mem_cons.mp hin with heq | hin
    · cases heq
    · obtain ⟨u, -, heq⟩ := List.mem_map.mp hin
      cases heq
  have hinit : IsRing (s.mem.links.init .previous) .queue (s.hist.map .task) :=
    hlist.ring.frame fun x hx => same_init fun heq => hfresh (heq ▸ hx)
  have hring := (hinit.replace hfresh).1
  have hfront := front_task hring
  have hempty := s.mem.tasksPriority.holds_empty
  by_cases hhist : s.hist = []
  · rw [hhist] at hfront
    refine ⟨.nil, ⟨?_, List.Pairwise.nil, fun t ht => ?_, fun h hh => ?_⟩, fun h hh => ?_⟩
    · simp only [QueueMem.enablePriorities, hfront, List.head?_nil]
      exact hempty
    · rw [show _ = [] from hhist] at ht
      cases ht
    · cases hh
    · cases hh
  · obtain ⟨h, rest, hhist⟩ := List.exists_cons_of_ne_nil hhist
    rw [hhist] at hfront hring
    obtain ⟨T, hins⟩ : ∃ T, insert (taskPriorityCompare s.priority) h .nil = some T := ⟨_, rfl⟩
    obtain ⟨l, r, hnil, hin⟩ := inorder_insert hins
    obtain ⟨rfl, rfl⟩ := List.append_eq_nil_iff.mp hnil.symm
    have hzero : s.priority h = 0 := hlist.zero h (hhist ▸ List.mem_cons_self)
    have hmem : s.mem.enablePriorities s.priority = ⟨true,
        ((s.mem.links.init .previous).replace .queue .previous).remove .previous,
        s.mem.tasksPriority.empty.insert (taskPriorityCompare s.priority) h⟩ := by
      simp only [QueueMem.enablePriorities, hfront, List.head?_cons]
    rw [hmem]
    refine ⟨T, ⟨hempty.insert (List.not_mem_nil) hins, ?_, fun t ht => ?_, fun h' hh' => ?_⟩,
      fun h' hh' => ?_⟩
    · rw [hin]
      exact List.pairwise_singleton _ _
    · exact ⟨h, by simp [hin], hzero.trans (hlist.zero t ht).symm⟩
    · rw [hin] at hh'
      obtain rfl := List.mem_singleton.mp hh'
      refine ⟨rest, ?_, hring.removeHead.1⟩
      show s.level (s.priority h') = _
      rw [hzero, hlist.level_zero, hhist]
    · rw [hin] at hh'
      rw [List.mem_singleton.mp hh', hzero]

/-- `scheduler_add_queue` keeps both shapes. -/
theorem Inv.add (hinv : s.Inv) (ht : t ∉ s.hist) :
    Inv { s with
      mem := s.mem.schedulerAddQueue s.priority t
      hist := s.hist ++ [t] } := by
  have hnodup : (s.hist ++ [t]).Nodup := by
    rw [List.nodup_append]
    refine ⟨hinv.nodup, List.nodup_singleton t, fun a ha b hb => ?_⟩
    rw [List.mem_singleton.mp hb]
    exact fun heq => ht (heq ▸ ha)
  have hfound : ∀ u ∈ s.found, (level { s with
      mem := s.mem.schedulerAddQueue s.priority t
      hist := s.hist ++ [t] } (s.priority u)).head? = some u := by
    intro u hu
    rw [level_add, List.head?_append, hinv.found u hu, Option.some_or]
  cases hen : s.mem.priorityEnabled with
  | true =>
      obtain ⟨T, htree⟩ := hinv.tree hen
      have htree' : ∃ T', TreeInv { s with
          mem := s.mem.schedulerAddQueue s.priority t
          hist := s.hist ++ [t] } T' := by
        rw [schedulerAddQueue, if_pos hen, htree.holds.tree_eq]
        cases hfind : find (taskPriorityCompare s.priority t) T with
        | some h =>
            obtain ⟨hh, heq⟩ := find_mem hfind
            exact ⟨T, htree.addTail ht hh (compare_eq_iff_eq.mp heq).symm⟩
        | none =>
            refine htree.insertAlone ht fun h hh heq => ?_
            have hsome := find_isSome_of_mem (ordered_compare htree t) hh
              (compare_eq_iff_eq.mpr heq.symm)
            rw [hfind] at hsome
            cases hsome
      have hen' : (s.mem.schedulerAddQueue s.priority t).priorityEnabled = true := by
        rw [schedulerAddQueue, if_pos hen]
        split
        · exact hen
        · exact hen
      refine ⟨hnodup, fun h => ?_, fun _ => htree', hfound⟩
      rw [show _ = true from hen'] at h
      cases h
  | false =>
      have hlist := hinv.list hen
      by_cases hprio : s.priority t = 0
      · have hmem : s.mem.schedulerAddQueue s.priority t =
            { s.mem with links := s.mem.links.addTail .queue (.task t) } := by
          rw [schedulerAddQueue, if_neg (by simp [hen]), if_neg (not_not_intro hprio)]
        have hnew : QHook.task t ∉ QHook.queue :: s.hist.map QHook.task := by
          intro hin
          rcases List.mem_cons.mp hin with heq | hin
          · cases heq
          · obtain ⟨u, hu, heq⟩ := List.mem_map.mp hin
            exact ht (QHook.task.inj heq ▸ hu)
        refine ⟨hnodup, fun _ => ⟨fun u hu => ?_, ?_⟩, fun h => ?_, hfound⟩
        · rcases List.mem_append.mp hu with hu | hu
          · exact hlist.zero u hu
          · rw [List.mem_singleton.mp hu]
            exact hprio
        · simp only [hmem, List.map_append]
          exact hlist.ring.addTail hnew
        · simp only [hmem, hen] at h
          cases h
      · obtain ⟨T, htree, hzero⟩ := hlist.enablePriorities
        have hmem : s.mem.schedulerAddQueue s.priority t =
            (s.mem.enablePriorities s.priority).insertAlone s.priority t := by
          rw [schedulerAddQueue, if_neg (by simp [hen]), if_pos hprio]
        have hen' : (s.mem.schedulerAddQueue s.priority t).priorityEnabled = true := by
          rw [hmem, QueueMem.insertAlone, QueueMem.enablePriorities]
          simp only
          split
          · rfl
          · rfl
        refine ⟨hnodup, fun h => ?_, fun _ => ?_, hfound⟩
        · rw [show _ = true from hen'] at h
          cases h
        · rw [hmem]
          exact htree.insertAlone ht fun h hh heq => hprio (heq.symm.trans (hzero h hh))

/-! ### Popping a task -/

/-- The levels after task `t` was popped. -/
theorem level_pop (hnd : s.hist.Nodup) (mem : QueueMem) (found : List TaskId) (t : TaskId) (p : Int) :
    level ⟨mem, s.priority, s.hist.erase t, found⟩ p = (s.level p).erase t := by
  simp only [level]
  rw [hnd.erase_eq_filter, (hnd.filter _).erase_eq_filter, List.filter_comm]

theorem level_pop_of_ne (hnd : s.hist.Nodup) (mem : QueueMem) (found : List TaskId)
    (hp : s.priority t ≠ p) : level ⟨mem, s.priority, s.hist.erase t, found⟩ p = s.level p := by
  rw [level_pop hnd]
  exact List.erase_of_not_mem fun hin => hp (mem_level.mp hin).2

/-- The node of `t` leaves the tree or goes to the next task of its circle. -/
theorem TreeInv.pop (htree : s.TreeInv T) (hnd : s.hist.Nodup) (hen : s.mem.priorityEnabled = true)
    (ht : (s.level (s.priority t)).head? = some t) (found : List TaskId) :
    ∃ T', TreeInv ⟨s.mem.schedulerPopQueue t, s.priority, s.hist.erase t, found⟩ T' := by
  have hnode := htree.mem_of_head ht
  obtain ⟨rest, hlevel, hring⟩ := htree.head t hnode
  obtain ⟨l, r, hin, hremove⟩ := inorder_remove hnode
  have hfront := front_task hring
  have hother : ∀ {h}, h ∈ l ++ r → h ∈ inorder T ∧ s.priority h ≠ s.priority t := by
    intro h hh
    have hmem : h ∈ inorder T := by
      rw [hin]
      simp only [List.mem_append, List.mem_cons] at hh ⊢
      tauto
    refine ⟨hmem, fun heq => ?_⟩
    have hnodup := htree.holds.nodup
    rw [hin, List.nodup_middle, List.nodup_cons] at hnodup
    exact hnodup.1 (htree.eq_of_priority hmem hnode heq ▸ hh)
  have hsorted := htree.sorted
  rw [hin, List.pairwise_append, List.pairwise_cons] at hsorted
  obtain ⟨hleft, ⟨hafter, hright⟩, hcross⟩ := hsorted
  -- the other circles, in any store that differs only in the level of `t`
  have hrings : ∀ {links : Links QHook} {tree : TreeMem TaskId},
      (∀ u, u ∉ s.level (s.priority t) → s.mem.links.Same links (.task u)) → ∀ h ∈ l ++ r,
      ∃ rest, level ⟨⟨true, links, tree⟩, s.priority, s.hist.erase t, found⟩ (s.priority h) = h :: rest
        ∧ IsRing links (.task h) (rest.map .task) := by
    intro links tree hsame h hh
    obtain ⟨hmem, hne⟩ := hother hh
    obtain ⟨rest', hlevel', hring'⟩ := htree.head h hmem
    refine ⟨rest', (level_pop_of_ne hnd _ found hne.symm).trans hlevel', ?_⟩
    refine ring_congr hlevel' hring' fun u hu => hsame u fun hin' => hne ?_
    exact (mem_level.mp hu).2.symm.trans (mem_level.mp hin').2
  have hlevel_self : ∀ mem : QueueMem,
      level ⟨mem, s.priority, s.hist.erase t, found⟩ (s.priority t) = rest := by
    intro mem
    rw [level_pop hnd, hlevel, List.erase_cons_head]
  -- a task of another level keeps its node
  have hcover : ∀ u ∈ s.hist.erase t, (∃ h ∈ l ++ r, s.priority h = s.priority u) ∨ u ∈ rest := by
    intro u hu
    obtain ⟨h, hh, hprio⟩ := htree.cover u (List.mem_of_mem_erase hu)
    rw [hin, List.mem_append, List.mem_cons] at hh
    rcases hh with hh | rfl | hh
    · exact Or.inl ⟨h, List.mem_append_left r hh, hprio⟩
    · refine Or.inr ?_
      rw [← hlevel_self s.mem, mem_level]
      exact ⟨hu, hprio.symm⟩
    · exact Or.inl ⟨h, List.mem_append_right l hh, hprio⟩
  cases hrest : rest with
  | nil =>
      rw [hrest] at hfront hlevel hcover
      have hmem : s.mem.schedulerPopQueue t = ⟨true, s.mem.links.init (.task t),
          { s.mem.tasksPriority.remove t with
            hook := Function.update (s.mem.tasksPriority.remove t).hook t zeroHook }⟩ := by
        simp only [schedulerPopQueue, popTree, cleanTreeHook, hen, if_true, hfront, List.head?_nil]
      rw [hmem]
      refine ⟨remove t T, (htree.holds.remove hnode).update ?_ zeroHook, ?_, fun u hu => ?_, ?_⟩
      · rw [hremove]
        exact fun h => (hother h).2 rfl
      · rw [hremove, List.pairwise_append]
        exact ⟨hleft, hright, fun a ha b hb => hcross a ha b (List.mem_cons_of_mem t hb)⟩
      · rw [hremove]
        exact (hcover u hu).resolve_right List.not_mem_nil
      · rw [hremove]
        refine hrings fun u hu => same_init fun heq => hu ?_
        rw [QHook.task.inj heq, hlevel]
        exact List.mem_cons_self
  | cons n rest' =>
      rw [hrest] at hfront hlevel hcover hring hlevel_self
      have hmem : s.mem.schedulerPopQueue t = ⟨true, (s.mem.links.remove (.task t)).init (.task t),
          { transplant s.mem.tasksPriority t n with
            hook := Function.update (transplant s.mem.tasksPriority t n).hook t zeroHook }⟩ := by
        simp only [schedulerPopQueue, popTree, cleanTreeHook, hen, if_true, hfront, List.head?_cons]
      have hnodup : (t :: n :: rest').Nodup := hlevel ▸ hnd.filter _
      have hn : n ∈ s.level (s.priority t) := by
        rw [hlevel]
        exact List.mem_cons_of_mem t List.mem_cons_self
      have hprio : s.priority n = s.priority t := (mem_level.mp hn).2
      have hne : n ≠ t := fun heq => (List.nodup_cons.mp hnodup).1 (heq ▸ List.mem_cons_self)
      have hnew : n ∉ inorder T := fun h => hne (htree.eq_of_priority h hnode hprio)
      have hreplace := inorder_replace (y := n) hin htree.holds.nodup
      obtain ⟨hhead, hsame⟩ := hring.removeHead
      have hsame' : ∀ u, u ≠ t → (s.mem.links.remove (.task t)).Same
          ((s.mem.links.remove (.task t)).init (.task t)) (.task u) := by
        intro u hu
        exact same_init fun heq => hu (QHook.task.inj heq)
      have hframe : ∀ u, u ∉ s.level (s.priority t) → s.mem.links.Same
          ((s.mem.links.remove (.task t)).init (.task t)) (.task u) := by
        intro u hu
        obtain ⟨hnext, hprev⟩ := hsame (.task u) fun hin => hu ((task_mem_iff hlevel).mp hin)
        obtain ⟨hnext', hprev'⟩ := hsame' u fun heq => hu (by rw [heq, hlevel]; exact List.mem_cons_self)
        exact ⟨hnext'.trans hnext, hprev'.trans hprev⟩
      rw [hmem]
      refine ⟨replace t n T, (htree.holds.transplant hnode hnew).update ?_ zeroHook, ?_,
        fun u hu => ?_, fun h hh => ?_⟩
      · rw [hreplace]
        simp only [List.mem_append, List.mem_cons, not_or]
        exact ⟨fun h => (hother (List.mem_append_left r h)).2 rfl, hne.symm,
          fun h => (hother (List.mem_append_right l h)).2 rfl⟩
      · rw [hreplace, List.pairwise_append, List.pairwise_cons]
        refine ⟨hleft, ⟨fun b hb => ?_, hright⟩, fun a ha b hb => ?_⟩
        · rw [hprio]
          exact hafter b hb
        · rcases List.mem_cons.mp hb with rfl | hb
          · rw [hprio]
            exact hcross a ha t List.mem_cons_self
          · exact hcross a ha b (List.mem_cons_of_mem t hb)
      · rw [hreplace]
        rcases hcover u hu with ⟨h, hh, heq⟩ | hu
        · refine ⟨h, ?_, heq⟩
          simp only [List.mem_append, List.mem_cons] at hh ⊢
          tauto
        · refine ⟨n, by simp, hprio.trans ?_⟩
          rw [← hlevel_self s.mem, mem_level] at hu
          exact hu.2.symm
      · rw [hreplace, List.mem_append, List.mem_cons] at hh
        rcases hh with hh | rfl | hh
        · exact hrings hframe h (List.mem_append_left r hh)
        · refine ⟨rest', ?_, ring_congr rfl hhead fun u hu => hsame' u ?_⟩
          · show level _ (s.priority h) = _
            rw [hprio, hlevel_self]
          · exact fun heq => (List.nodup_cons.mp hnodup).1 (heq ▸ hu)
        · exact hrings hframe h (List.mem_append_right l hh)

/-- The first task leaves the list. -/
theorem ListInv.pop (hlist : s.ListInv) (hnd : s.hist.Nodup) (hen : s.mem.priorityEnabled = false)
    (ht : (s.level (s.priority t)).head? = some t) (found : List TaskId) :
    ListInv ⟨s.mem.schedulerPopQueue t, s.priority, s.hist.erase t, found⟩ := by
  have hin : t ∈ s.hist := (mem_level.mp (List.mem_of_head? ht)).1
  rw [hlist.zero t hin, hlist.level_zero] at ht
  obtain ⟨rest, hhist⟩ := List.head?_eq_some_iff.mp ht
  have hring := hlist.ring
  rw [hhist, List.map_cons] at hring
  have hmem : s.mem.schedulerPopQueue t =
      { s.mem with links := (s.mem.links.remove (.task t)).init (.task t) } := by
    simp only [schedulerPopQueue, hen, Bool.false_eq_true, if_false, popFront_cons hring]
  refine ⟨fun u hu => hlist.zero u (List.mem_of_mem_erase hu), ?_⟩
  simp only [hmem, hhist, List.erase_cons_head]
  have hring' : IsRing s.mem.links .queue ([] ++ QHook.task t :: rest.map .task) := hring
  have hrest : IsRing (s.mem.links.remove (.task t)) .queue (rest.map .task) := hring'.remove.1
  refine hrest.frame fun x hx => same_init fun heq => ?_
  rw [heq] at hx
  rcases List.mem_cons.mp hx with heq | hx
  · cases heq
  · obtain ⟨u, hu, heq⟩ := List.mem_map.mp hx
    rw [hhist, List.nodup_cons] at hnd
    exact hnd.1 (QHook.task.inj heq ▸ hu)

theorem popQueue_enabled (q : QueueMem) (t : TaskId) :
    (q.schedulerPopQueue t).priorityEnabled = q.priorityEnabled := by
  unfold schedulerPopQueue popTree
  split
  · simp only [cleanTreeHook]
    split <;> rfl
  · rfl

/-- `scheduler_pop_queue` keeps both shapes. -/
theorem Inv.pop (hinv : s.Inv) (ht : t ∈ s.found) :
    Inv ⟨s.mem.schedulerPopQueue t, s.priority, s.hist.erase t, s.found.filter (· ≠ t)⟩ := by
  have hhead := hinv.found t ht
  refine ⟨hinv.nodup.erase t, fun hen => ?_, fun hen => ?_, fun u hu => ?_⟩
  · rw [show _ = s.mem.priorityEnabled from popQueue_enabled s.mem t] at hen
    exact (hinv.list hen).pop hinv.nodup hen hhead _
  · rw [show _ = s.mem.priorityEnabled from popQueue_enabled s.mem t] at hen
    obtain ⟨T, htree⟩ := hinv.tree hen
    exact htree.pop hinv.nodup hen hhead _
  · obtain ⟨hu, hne⟩ := List.mem_filter.mp hu
    obtain ⟨rest, hrest⟩ := List.head?_eq_some_iff.mp (hinv.found u hu)
    have hne : u ≠ t := of_decide_eq_true hne
    rw [level_pop hinv.nodup, hrest, List.erase_cons_tail (by simpa using hne), List.head?_cons]

/-! ### Searching -/

/-- The levels of the tree, from the largest priority down, are the sorted
history. -/
theorem TreeInv.byPriority_eq (htree : s.TreeInv T) :
    (inorder T).reverse.flatMap (fun h => s.level (s.priority h)) = byPriority s.priority s.hist := by
  have hkeys : ((inorder T).reverse.map s.priority).Pairwise (· > ·) := by
    rw [List.map_reverse, List.pairwise_reverse, List.pairwise_map]
    exact htree.sorted
  have hcover : ∀ t ∈ s.hist, s.priority t ∈ (inorder T).reverse.map s.priority := by
    intro t ht
    obtain ⟨h, hh, heq⟩ := htree.cover t ht
    exact List.mem_map.mpr ⟨h, List.mem_reverse.mpr hh, heq⟩
  rw [← flatMap_filter s.priority hkeys hcover, List.flatMap_map]
  rfl

/-- Without priorities the history is sorted as it is. -/
theorem ListInv.byPriority_eq (hlist : s.ListInv) : byPriority s.priority s.hist = s.hist := by
  refine List.mergeSort_of_pairwise ?_
  refine List.pairwise_iff_forall_sublist.mpr fun {a b} hsub => ?_
  have ha := hlist.zero a (hsub.subset (by simp))
  have hb := hlist.zero b (hsub.subset (by simp))
  simp [ha, hb]

theorem head?_flatMap_of_ne_nil {α β : Type*} {f : α → List β} {g : α → β} :
    ∀ {l : List α}, (∀ a ∈ l, (f a).head? = some (g a)) → (l.flatMap f).head? = l.head?.map g
  | [], _ => rfl
  | a :: l, h => by
      rw [List.flatMap_cons, List.head?_append, h a List.mem_cons_self]
      rfl

/-- The search gives the first task of the sorted history. -/
theorem Inv.find_eq (hinv : s.Inv) :
    s.mem.schedulerFindInQueue = (byPriority s.priority s.hist).head? := by
  unfold schedulerFindInQueue
  cases hen : s.mem.priorityEnabled with
  | true =>
      obtain ⟨T, htree⟩ := hinv.tree hen
      have hhead : ∀ h ∈ (inorder T).reverse, (s.level (s.priority h)).head? = some (id h) := by
        intro h hh
        obtain ⟨rest, hlevel, -⟩ := htree.head h (List.mem_reverse.mp hh)
        rw [hlevel]
        rfl
      rw [if_pos rfl, htree.holds.tree_eq, max?_eq_getLast?, ← htree.byPriority_eq,
        head?_flatMap_of_ne_nil hhead, List.head?_reverse, Option.map_id]
      rfl
  | false =>
      have hlist := hinv.list hen
      rw [if_neg (by simp), front_task hlist.ring, hlist.byPriority_eq]

/-- The first task of the sorted history has the largest priority and is
the earliest with it. -/
theorem head?_byPriority (h : (byPriority s.priority s.hist).head? = some t) :
    (∀ u ∈ s.hist, s.priority u ≤ s.priority t) ∧ (s.level (s.priority t)).head? = some t := by
  obtain ⟨rest, hrest⟩ := List.head?_eq_some_iff.mp h
  have hsorted := byPriority_pairwise s.priority s.hist
  rw [hrest, List.pairwise_cons] at hsorted
  refine ⟨fun u hu => ?_, ?_⟩
  · have hu : u ∈ t :: rest := hrest ▸ List.mem_mergeSort.mpr hu
    rcases List.mem_cons.mp hu with rfl | hu
    · exact le_refl _
    · exact hsorted.1 u hu
  · rw [level, ← filter_byPriority, hrest, List.filter_cons_of_pos (by simp), List.head?_cons]

/-! ### Every run -/

/-- The shape depends on the priorities of the queued tasks only. -/
theorem Inv.congr (hinv : s.Inv) {priority : TaskId → Int} {found : List TaskId}
    (hprio : ∀ u ∈ s.hist, priority u = s.priority u)
    (hfound : ∀ u ∈ found, (s.level (s.priority u)).head? = some u) :
    Inv ⟨s.mem, priority, s.hist, found⟩ := by
  have hlevel : ∀ q, level ⟨s.mem, priority, s.hist, found⟩ q = s.level q := fun q =>
    List.filter_congr fun u hu => by simp only [hprio u hu]
  refine ⟨hinv.nodup, fun hen => ⟨fun u hu => ?_, (hinv.list hen).ring⟩, fun hen => ?_, fun u hu => ?_⟩
  · exact (hprio u hu).trans ((hinv.list hen).zero u hu)
  · obtain ⟨T, htree⟩ := hinv.tree hen
    have hnode : ∀ h ∈ inorder T, priority h = s.priority h := fun h hh =>
      hprio h (htree.mem_hist hh)
    refine ⟨T, htree.holds, ?_, fun u hu => ?_, fun h hh => ?_⟩
    · refine htree.sorted.imp_of_mem fun {a b} ha hb hlt => ?_
      show priority a < priority b
      rwa [hnode a ha, hnode b hb]
    · obtain ⟨h, hh, heq⟩ := htree.cover u hu
      exact ⟨h, hh, (hnode h hh).trans (heq.trans (hprio u hu).symm)⟩
    · show ∃ rest, level _ (priority h) = _ ∧ _
      rw [hlevel, hnode h hh]
      exact htree.head h hh
  · have hu := hfound u hu
    have hin := (mem_level.mp (List.mem_of_head? hu)).1
    show (level _ (priority u)).head? = _
    rw [hlevel, hprio u hin]
    exact hu

theorem Inv.step (hinv : s.Inv) {op : QOp} {s' : QState} (hstep : s.step op = some s') : s'.Inv := by
  cases op with
  | setPriority t p =>
      obtain ⟨ht, hs⟩ := Option.ite_none_left_eq_some.mp hstep
      obtain rfl := Option.some.inj hs
      refine hinv.congr (fun u hu => ?_) hinv.found
      exact Function.update_of_ne (fun heq : u = t => ht (heq ▸ hu)) ..
  | add t =>
      obtain ⟨ht, hs⟩ := Option.ite_none_left_eq_some.mp hstep
      obtain rfl := Option.some.inj hs
      exact hinv.add ht
  | find =>
      obtain rfl := Option.some.inj hstep
      refine hinv.congr (fun _ _ => rfl) fun u hu => ?_
      rcases List.mem_append.mp hu with hu | hu
      · rw [hinv.find_eq] at hu
        exact (head?_byPriority (Option.mem_toList.mp hu)).2
      · exact hinv.found u hu
  | pop t =>
      obtain ⟨ht, hs⟩ := Option.ite_none_right_eq_some.mp hstep
      obtain rfl := Option.some.inj hs
      exact hinv.pop ht

theorem inv_start (mem : QueueMem) (priority : TaskId → Int) : Inv (start mem priority) := by
  refine ⟨List.nodup_nil, fun _ => ⟨fun t ht => ?_, isRing_init _ _⟩, fun hen => ?_, fun t ht => ?_⟩
  · cases ht
  · cases hen
  · cases ht

theorem inv_run {mem : QueueMem} {priority : TaskId → Int} {ops : List QOp}
    (hrun : run step (start mem priority) ops = some s) : s.Inv :=
  invariant (fun _ _ _ hstep hinv => hinv.step hstep) hrun (inv_start mem priority)

/-- Every task is queued as often as it was added and not popped. -/
theorem count_run {ops : List QOp} {s s' : QState} (hinv : s.Inv) (hrun : run step s ops = some s')
    (t : TaskId) :
    s'.hist.count t + ops.count (.pop t) = s.hist.count t + ops.count (.add t) := by
  induction ops generalizing s with
  | nil =>
      obtain rfl := Option.some.inj hrun
      rfl
  | cons op ops ih =>
      obtain ⟨u, hstep, hrest⟩ := run_cons hrun
      have hrec := ih (hinv.step hstep) hrest
      cases op with
      | setPriority v p =>
          obtain ⟨-, hs⟩ := Option.ite_none_left_eq_some.mp hstep
          obtain rfl := Option.some.inj hs
          simpa using hrec
      | add v =>
          obtain ⟨-, hs⟩ := Option.ite_none_left_eq_some.mp hstep
          obtain rfl := Option.some.inj hs
          rw [List.count_append, List.count_singleton] at hrec
          rw [List.count_cons, List.count_cons]
          simp only [beq_iff_eq, QOp.add.injEq, reduceCtorEq, if_false] at hrec ⊢
          omega
      | find =>
          obtain rfl := Option.some.inj hstep
          simpa using hrec
      | pop v =>
          obtain ⟨hv, hs⟩ := Option.ite_none_right_eq_some.mp hstep
          obtain rfl := Option.some.inj hs
          have hin := (mem_level.mp (List.mem_of_head? (hinv.found v hv))).1
          rw [List.count_erase] at hrec
          rw [List.count_cons, List.count_cons]
          by_cases heq : v = t
          · subst heq
            have hpos : 0 < s.hist.count v := List.count_pos_iff.mpr hin
            simp only [beq_self_eq_true, if_true, beq_iff_eq, reduceCtorEq, if_false] at hrec ⊢
            omega
          · simp only [beq_iff_eq, heq, QOp.pop.injEq, reduceCtorEq, if_false] at hrec ⊢
            omega

/-- The memory of the queue holds the tasks `l`, in the order in which it
gives them out: the list as it is linked, or the circles of the tree from
its largest node down. -/
def Reads (q : QueueMem) (l : List TaskId) : Prop :=
  if q.priorityEnabled then
    ∃ (T : RB TaskId) (ring : TaskId → List TaskId), q.tasksPriority.Holds T
      ∧ (∀ h ∈ inorder T, IsRing q.links (.task h) ((ring h).map .task))
      ∧ l = (inorder T).reverse.flatMap fun h => h :: ring h
  else IsRing q.links .queue (l.map .task)

theorem Inv.reads (hinv : s.Inv) : Reads s.mem (byPriority s.priority s.hist) := by
  unfold Reads
  cases hen : s.mem.priorityEnabled with
  | true =>
      obtain ⟨T, htree⟩ := hinv.tree hen
      have hhead : ∀ h ∈ inorder T, s.level (s.priority h) = h :: (s.level (s.priority h)).tail := by
        intro h hh
        obtain ⟨rest, hlevel, -⟩ := htree.head h hh
        rw [hlevel, List.tail_cons]
      rw [if_pos rfl, ← htree.byPriority_eq]
      refine ⟨T, fun h => (s.level (s.priority h)).tail, htree.holds, fun h hh => ?_, ?_⟩
      · obtain ⟨rest, hlevel, hring⟩ := htree.head h hh
        show IsRing _ _ ((s.level (s.priority h)).tail.map _)
        rw [hlevel, List.tail_cons]
        exact hring
      · exact List.flatMap_congr fun h hh => hhead h (List.mem_reverse.mp hh)
  | false =>
      have hlist := hinv.list hen
      rw [if_neg (by simp), hlist.byPriority_eq]
      exact hlist.ring

/-- `scheduler_queue_t` is a stable priority queue. After every run of
additions, searches and pops of found tasks, in any memory and across the
switch to priorities: the search gives the first task of the sorted
history, which is the earliest one of the largest priority; the memory
holds exactly the sorted history, and each task as often as it was added
and not popped; and a queued task is linked in the tree exactly if it is
the earliest of its priority, with the others of this priority in the
circle behind it. -/
theorem stable_priority_queue {mem : QueueMem} {priority : TaskId → Int} {ops : List QOp} {s : QState}
    (hrun : run step (start mem priority) ops = some s) :
    (s.mem.schedulerFindInQueue = (byPriority s.priority s.hist).head?
      ∧ ∀ t, s.mem.schedulerFindInQueue = some t →
        (∀ u ∈ s.hist, s.priority u ≤ s.priority t)
          ∧ (s.hist.filter (s.priority · = s.priority t)).head? = some t)
    ∧ (Reads s.mem (byPriority s.priority s.hist) ∧ s.hist.Nodup
      ∧ ∀ t, s.hist.count t + ops.count (.pop t) = ops.count (.add t))
    ∧ (s.mem.priorityEnabled = true →
      (∀ h, Linked s.mem.tasksPriority.hook s.mem.tasksPriority.root h →
        ∃ rest, s.hist.filter (s.priority · = s.priority h) = h :: rest
          ∧ IsRing s.mem.links (.task h) (rest.map .task))
      ∧ ∀ t ∈ s.hist, Linked s.mem.tasksPriority.hook s.mem.tasksPriority.root t ↔
        (s.hist.filter (s.priority · = s.priority t)).head? = some t) := by
  have hinv := inv_run hrun
  refine ⟨⟨hinv.find_eq, fun t ht => ?_⟩, ⟨hinv.reads, hinv.nodup, fun t => ?_⟩, fun hen => ?_⟩
  · rw [hinv.find_eq] at ht
    exact head?_byPriority ht
  · have hcount := count_run (inv_start mem priority) hrun t
    rwa [show (start mem priority).hist = [] from rfl, List.count_nil, Nat.zero_add] at hcount
  · obtain ⟨T, htree⟩ := hinv.tree hen
    have hlinked : ∀ h, Linked s.mem.tasksPriority.hook s.mem.tasksPriority.root h ↔ h ∈ inorder T :=
      fun h => htree.holds.isTree.linked_iff htree.holds.nodup
    refine ⟨fun h hh => htree.head h ((hlinked h).mp hh), fun t _ => ?_⟩
    rw [hlinked]
    constructor
    · intro hin
      obtain ⟨rest, hlevel, -⟩ := htree.head t hin
      exact List.head?_eq_some_iff.mpr ⟨rest, hlevel⟩
    · exact htree.mem_of_head

/-- Two tasks without priority, then one with a negative priority; the
first of them is found and popped, and its neighbour is found next. -/
def switchOps : List QOp := [.add 0, .add 1, .setPriority 2 (-3), .add 2, .find, .pop 0]

def switchStart : QState :=
  start ⟨false, Links.unlinked, ⟨fun _ => zeroHook, none, 0⟩⟩ fun _ => 0

theorem stable_priority_queue_switch :
    ∃ s, run step switchStart switchOps = some s ∧ s.mem.priorityEnabled = true
      ∧ s.mem.schedulerFindInQueue = some 1
      ∧ s.mem.schedulerFindInQueue = (byPriority s.priority s.hist).head? := by
  have hsome : ((run step switchStart switchOps).map fun s =>
      (s.mem.priorityEnabled, s.mem.schedulerFindInQueue)) = some (true, some 1) := by
    decide +kernel
  obtain ⟨s, hrun, hs⟩ := Option.map_eq_some_iff.mp hsome
  obtain ⟨hen, hfind⟩ := Prod.mk.inj hs
  exact ⟨s, hrun, hen, hfind, (stable_priority_queue hrun).1.1⟩

end QState

end Nosv
