import Mathlib.Algebra.Order.Group.Multiset
import Nosv.Lib.RBTree
import Nosv.Task

/-!
# Scheduler queues

`scheduler_queue_t`: a FIFO list until the first task with a non-zero
priority arrives, and from then on a red-black tree of priorities. A node
of the tree is a task together with the ring of tasks of the same
priority that hangs from its `list_hook`; it is a `Chain` here, head
first.

The lemmas at the end say what each operation does to the multiset of
queued tasks (`Queue.elems`), which is all that the accounting of the
scheduler depends on.
-/

namespace Nosv

open RBTree

/-- A node of the priority tree with the tasks linked behind it. -/
structure Chain where
  priority : Int
  tasks : List TaskId
  deriving DecidableEq, Repr

structure Queue where
  priorityEnabled : Bool
  tasks : List TaskId
  tasksPriority : RB Chain
  deriving Repr

/-- `task_priority_compare` -/
def taskPriorityCompare (a b : Chain) : Ordering := compare a.priority b.priority

/-- `scheduler_init_queue` -/
def schedulerInitQueue : Queue := ⟨false, [], .nil⟩

/-- `scheduler_find_in_queue` -/
def schedulerFindInQueue (q : Queue) : Option TaskId :=
  if q.priorityEnabled then
    match max? q.tasksPriority with
    | some ch => ch.tasks.head?
    | none => none
  else
    q.tasks.head?

/-- `scheduler_pop_queue`, for the task that `scheduler_find_in_queue` gave. -/
def schedulerPopQueue (q : Queue) : Queue :=
  if q.priorityEnabled then
    match max? q.tasksPriority with
    | none => q
    | some ch =>
        match ch.tasks with
        | _ :: next :: rest =>
            -- the next task of the ring is transplanted into the node
            { q with tasksPriority :=
                replace ch ⟨ch.priority, next :: rest⟩ q.tasksPriority }
        | _ => { q with tasksPriority := remove ch q.tasksPriority }
  else
    { q with tasks := q.tasks.tail }

/-- `RB_INSERT` into the priority tree; a node that meets an equal
priority is not linked. -/
def rbInsertChain (ch : Chain) (t : RB Chain) : RB Chain :=
  (insert taskPriorityCompare ch t).getD t

/-- The tree that `scheduler_add_queue` makes of the old list when it
enables priorities: one ring behind the first task. -/
def enablePriorities (priority : TaskId → Int) : List TaskId → RB Chain
  | [] => .nil
  | h :: rest => rbInsertChain ⟨priority h, h :: rest⟩ .nil

/-- `scheduler_add_queue` -/
def schedulerAddQueue (priority : TaskId → Int) (q : Queue) (t : TaskId) : Queue :=
  if q.priorityEnabled then
    match find (taskPriorityCompare ⟨priority t, [t]⟩) q.tasksPriority with
    | some ch =>
        { q with tasksPriority :=
            replace ch ⟨ch.priority, ch.tasks ++ [t]⟩ q.tasksPriority }
    | none => { q with tasksPriority := rbInsertChain ⟨priority t, [t]⟩ q.tasksPriority }
  else if priority t ≠ 0 then
    ⟨true, [], rbInsertChain ⟨priority t, [t]⟩ (enablePriorities priority q.tasks)⟩
  else
    { q with tasks := q.tasks ++ [t] }

/-! ## Contents -/

namespace Queue

/-- All queued tasks. -/
def contents (q : Queue) : List TaskId :=
  if q.priorityEnabled then (inorder q.tasksPriority).flatMap Chain.tasks else q.tasks

/-- All queued tasks, as a multiset. -/
def elems (q : Queue) : Multiset TaskId := ↑q.contents

/-- Tasks reach a list only with priority zero, and a node of the tree is
a task. -/
structure Ok (priority : TaskId → Int) (q : Queue) : Prop where
  list_zero : q.priorityEnabled = false → ∀ t ∈ q.tasks, priority t = 0
  chain_ne : ∀ ch ∈ inorder q.tasksPriority, ch.tasks ≠ []

theorem ok_init (priority : TaskId → Int) : Ok priority schedulerInitQueue :=
  ⟨fun _ _ ht => (List.not_mem_nil ht).elim, fun _ hch => (List.not_mem_nil hch).elim⟩

@[simp] theorem elems_init : elems schedulerInitQueue = 0 := rfl

/-- The invariant reads the priorities of the queued tasks only. -/
theorem Ok.congr {p p' : TaskId → Int} {q : Queue} (h : Ok p q)
    (hp : ∀ t ∈ q.contents, p' t = p t) : Ok p' q := by
  refine ⟨fun hm t ht => ?_, h.chain_ne⟩
  rw [hp t (by simpa [contents, hm] using ht)]
  exact h.list_zero hm t ht

theorem contents_tree {q : Queue} (h : q.priorityEnabled = true) :
    q.contents = (inorder q.tasksPriority).flatMap Chain.tasks := by
  simp [contents, h]

theorem contents_list {q : Queue} (h : q.priorityEnabled = false) :
    q.contents = q.tasks := by
  simp [contents, h]

/-- Chains without a task in common are different nodes. -/
theorem nodup_inorder {q : Queue} (htree : q.priorityEnabled = true)
    (hne : ∀ ch ∈ inorder q.tasksPriority, ch.tasks ≠ []) (hnd : q.contents.Nodup) :
    (inorder q.tasksPriority).Nodup := by
  rw [contents_tree htree, List.nodup_flatMap] at hnd
  refine hnd.2.imp_of_mem fun {a b} ha _ hdis hab => ?_
  obtain ⟨t, ht⟩ := List.exists_mem_of_ne_nil _ (hne a ha)
  exact hdis ht (hab ▸ ht)

end Queue

open Queue

theorem find_mem_contents {q : Queue} {t : TaskId}
    (h : schedulerFindInQueue q = some t) : t ∈ q.contents := by
  unfold schedulerFindInQueue at h
  split at h
  · rename_i hp
    rw [contents_tree hp]
    split at h
    · rename_i ch hch
      exact List.mem_flatMap.mpr ⟨ch, max?_mem hch, List.mem_of_head? h⟩
    · cases h
  · rename_i hp
    rw [contents_list (by simpa using hp)]
    exact List.mem_of_head? h

/-- A queue is found empty only when it is. -/
theorem find_eq_none {priority : TaskId → Int} {q : Queue} (hok : Ok priority q)
    (h : schedulerFindInQueue q = none) : q.contents = [] := by
  unfold schedulerFindInQueue at h
  split at h
  · rename_i hp
    rw [contents_tree hp]
    split at h
    · rename_i ch hch
      exact absurd (List.head?_eq_none_iff.mp h) (hok.chain_ne ch (max?_mem hch))
    · rename_i hmax
      rw [max?_eq_getLast?, List.getLast?_eq_none_iff] at hmax
      simp [hmax]
  · rename_i hp
    rw [contents_list (by simpa using hp)]
    exact List.head?_eq_none_iff.mp h

/-! ## Adding a task -/

theorem inorder_rbInsertChain {ch : Chain} {t : RB Chain}
    (h : find (taskPriorityCompare ch) t = none) :
    ∃ l r, inorder t = l ++ r ∧ inorder (rbInsertChain ch t) = l ++ ch :: r := by
  cases hins : insert taskPriorityCompare ch t with
  | none =>
      rw [insert_eq_none_iff, h] at hins
      cases hins
  | some t' =>
      rw [rbInsertChain, hins]
      exact inorder_insert hins

theorem inorder_rbInsertChain_nil (ch : Chain) :
    inorder (rbInsertChain ch .nil) = [ch] := by
  have hfind : find (taskPriorityCompare ch) .nil = none := rfl
  obtain ⟨l, r, hnil, heq⟩ := inorder_rbInsertChain hfind
  obtain ⟨rfl, rfl⟩ := List.append_eq_nil_iff.mp hnil.symm
  simpa using heq

theorem elems_tree {k : List TaskId} {tree : RB Chain} {l r : List Chain} {ch : Chain}
    (h : inorder tree = l ++ ch :: r) :
    Queue.elems ⟨true, k, tree⟩ =
      ↑ch.tasks + (↑(l.flatMap Chain.tasks) + ↑(r.flatMap Chain.tasks)) := by
  rw [elems, contents_tree rfl, h, List.flatMap_append, List.flatMap_cons]
  simp only [← Multiset.coe_add]
  exact add_left_comm _ _ _

/-- One node of the tree changes its tasks: the others stay. -/
theorem elems_replace {k : List TaskId} {tree : RB Chain} {ch : Chain} (ch' : Chain)
    (hch : ch ∈ inorder tree) (hnd : (inorder tree).Nodup) :
    ↑ch.tasks + Queue.elems ⟨true, k, replace ch ch' tree⟩ =
      ↑ch'.tasks + Queue.elems ⟨true, k, tree⟩ := by
  obtain ⟨l, r, hsplit⟩ := List.append_of_mem hch
  rw [elems_tree hsplit, elems_tree (inorder_replace (y := ch') hsplit hnd)]
  exact add_left_comm _ _ _

theorem ok_replace {priority : TaskId → Int} {k : List TaskId} {tree : RB Chain}
    (hok : Ok priority ⟨true, k, tree⟩) {ch ch' : Chain} (hne : ch'.tasks ≠ []) :
    Ok priority ⟨true, k, replace ch ch' tree⟩ := by
  refine ⟨fun h => (by cases h), fun c hc => ?_⟩
  rw [inorder_replace_eq, List.mem_map] at hc
  obtain ⟨z, hz, rfl⟩ := hc
  split
  · exact hne
  · exact hok.chain_ne z hz

/-- A new node keeps the nodes of the tree non-empty. -/
theorem chain_ne_of_split {l r : List Chain} {ch : Chain} (hch : ch.tasks ≠ [])
    (h : ∀ c ∈ l ++ r, c.tasks ≠ []) : ∀ c ∈ l ++ ch :: r, c.tasks ≠ [] := by
  intro c hc
  rcases List.mem_append.mp hc with hl | hr
  · exact h c (List.mem_append_left _ hl)
  · rcases List.mem_cons.mp hr with rfl | hr
    · exact hch
    · exact h c (List.mem_append_right _ hr)

theorem inorder_enablePriorities (priority : TaskId → Int) (tasks : List TaskId) :
    ((inorder (enablePriorities priority tasks)).flatMap Chain.tasks = tasks)
      ∧ ∀ ch ∈ inorder (enablePriorities priority tasks),
          ch.tasks ≠ [] ∧ ∃ u ∈ tasks, ch.priority = priority u := by
  cases tasks with
  | nil => exact ⟨rfl, fun ch hch => (List.not_mem_nil hch).elim⟩
  | cons h rest =>
      rw [enablePriorities, inorder_rbInsertChain_nil]
      refine ⟨by simp, fun ch hch => ?_⟩
      rw [List.mem_singleton.mp hch]
      exact ⟨by simp, h, by simp, rfl⟩

/-- The switch to priorities: the list holds priority zero only, so the
new task meets no equal node. -/
theorem elems_switch {priority : TaskId → Int} {tasks : List TaskId} {t : TaskId}
    (hzero : ∀ u ∈ tasks, priority u = 0) (ht : priority t ≠ 0) :
    let q : Queue :=
      ⟨true, [], rbInsertChain ⟨priority t, [t]⟩ (enablePriorities priority tasks)⟩
    q.elems = t ::ₘ ↑tasks ∧ Ok priority q := by
  intro q
  obtain ⟨htree, hchain⟩ := inorder_enablePriorities priority tasks
  have hfind : find (taskPriorityCompare ⟨priority t, [t]⟩)
      (enablePriorities priority tasks) = none := by
    by_contra hne
    obtain ⟨ch, hch⟩ := Option.ne_none_iff_exists'.mp hne
    obtain ⟨hmem, heq⟩ := find_mem hch
    obtain ⟨-, u, hu, hprio⟩ := hchain ch hmem
    have : priority t = ch.priority := by simpa [taskPriorityCompare] using heq
    rw [hprio, hzero u hu] at this
    exact ht this
  obtain ⟨l, r, hin, hins⟩ := inorder_rbInsertChain hfind
  refine ⟨?_, fun h => (by cases h), fun ch hch => ?_⟩
  · rw [elems_tree hins, ← htree, hin, List.flatMap_append, ← Multiset.coe_add]
    rfl
  · rw [show inorder q.tasksPriority = l ++ ⟨priority t, [t]⟩ :: r from hins] at hch
    rw [hin] at hchain
    exact chain_ne_of_split (by simp) (fun c hc => (hchain c hc).1) ch hch

/-- `scheduler_add_queue` adds exactly its task. -/
theorem schedulerAddQueue_spec {priority : TaskId → Int} {q : Queue} {t : TaskId}
    (hok : Ok priority q) (hnd : q.contents.Nodup) :
    (schedulerAddQueue priority q t).elems = t ::ₘ q.elems
      ∧ Ok priority (schedulerAddQueue priority q t) := by
  obtain ⟨enabled, tasks, tree⟩ := q
  cases enabled with
  | true =>
      rw [schedulerAddQueue, if_pos rfl]
      cases hfind : find (taskPriorityCompare ⟨priority t, [t]⟩) tree with
      | some ch =>
          obtain ⟨hmem, -⟩ := find_mem hfind
          have hadd := elems_replace (k := tasks) ⟨ch.priority, ch.tasks ++ [t]⟩
            hmem (nodup_inorder rfl hok.chain_ne hnd)
          refine ⟨?_, ok_replace hok (by simp)⟩
          rw [← Multiset.coe_add, add_assoc] at hadd
          exact add_left_cancel hadd
      | none =>
          obtain ⟨l, r, hin, hins⟩ := inorder_rbInsertChain hfind
          have hchain := hok.chain_ne
          simp only [hin] at hchain
          refine ⟨?_, fun h => (by cases h), fun c hc => ?_⟩
          · rw [elems_tree hins, elems, contents_tree rfl, hin, List.flatMap_append,
              ← Multiset.coe_add]
            rfl
          · simp only [hins] at hc
            exact chain_ne_of_split (by simp) hchain c hc
  | false =>
      have hzero := hok.list_zero rfl
      rw [schedulerAddQueue, if_neg (by simp)]
      by_cases hprio : priority t = 0
      · rw [if_neg (by simpa using hprio)]
        refine ⟨?_, fun _ u hu => ?_, hok.chain_ne⟩
        · simp only [elems, contents_list, ← Multiset.coe_add]
          exact add_comm _ _
        · rcases List.mem_append.mp hu with h | h
          · exact hzero u h
          · rw [List.mem_singleton.mp h]
            exact hprio
      · rw [if_pos hprio]
        exact elems_switch hzero hprio

/-! ## Taking the found task out -/

/-- `scheduler_pop_queue` removes exactly the task that was found. -/
theorem schedulerPopQueue_spec {priority : TaskId → Int} {q : Queue} {t : TaskId}
    (hok : Ok priority q) (hnd : q.contents.Nodup)
    (hfind : schedulerFindInQueue q = some t) :
    q.elems = t ::ₘ (schedulerPopQueue q).elems ∧ Ok priority (schedulerPopQueue q) := by
  obtain ⟨enabled, tasks, tree⟩ := q
  cases enabled with
  | true =>
      rw [schedulerFindInQueue, if_pos rfl] at hfind
      rw [schedulerPopQueue, if_pos rfl]
      cases hmax : max? tree with
      | none => simp [hmax] at hfind
      | some ch =>
          simp only [hmax] at hfind ⊢
          have hmem := max?_mem hmax
          split
          · rename_i u next rest htasks
            obtain rfl : u = t := by simpa [htasks] using hfind
            have hrep := elems_replace (k := tasks) ⟨ch.priority, next :: rest⟩
              hmem (nodup_inorder rfl hok.chain_ne hnd)
            refine ⟨add_left_cancel (a := (↑(next :: rest) : Multiset TaskId)) ?_,
              ok_replace hok (by simp)⟩
            rw [← hrep, htasks, ← Multiset.cons_coe, Multiset.cons_add, Multiset.add_cons]
          · rename_i hshort
            have htasks : ch.tasks = [t] := by
              cases hcs : ch.tasks with
              | nil => simp [hcs] at hfind
              | cons u rest =>
                  cases rest with
                  | nil => simpa [hcs] using hfind
                  | cons v rest' => exact absurd hcs (hshort u v rest')
            obtain ⟨l, r, hin, hrem⟩ := inorder_remove hmem
            refine ⟨?_, fun h => (by cases h), fun c hc => hok.chain_ne c ?_⟩
            · rw [elems_tree hin, htasks, elems, contents_tree rfl, hrem,
                List.flatMap_append, ← Multiset.coe_add]
              rfl
            · simp only [hrem, hin, List.mem_append, List.mem_cons] at hc ⊢
              tauto
  | false =>
      rw [schedulerFindInQueue, if_neg (by simp)] at hfind
      rw [schedulerPopQueue, if_neg (by simp)]
      obtain ⟨rest, rfl⟩ := List.head?_eq_some_iff.mp hfind
      refine ⟨rfl, fun _ u hu => hok.list_zero rfl u ?_, hok.chain_ne⟩
      exact List.mem_cons_of_mem _ hu

end Nosv
