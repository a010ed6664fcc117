import Nosv.InQueue

/-!
# Submission to the scheduler

`scheduler_submit_internal` pushes a task to the input queue until there is
room for it, and empties the queue itself while there is none. Here no
other thread takes part: the calls of `mpsc_push` and `mpsc_pop_batch` are
functions on the buffers, and `dtlock_try_lock` gets the lock.

A loop takes the number of its iterations that are looked at, and is
`none` when it has not ended by then.
-/

namespace Nosv

open CircularBuffer

/-- The options of the input queue, as `config_check` leaves them, and the
number of CPUs, an `int`. -/
structure SubmitConf where
  cpus : Nat
  schedCpusPerQueue : Nat
  schedInQueueSize : Nat
  schedBatchSize : Nat
  cpus_lt : cpus < 2147483648
  schedCpusPerQueue_pos : 0 < schedCpusPerQueue
  schedCpusPerQueue_lt : schedCpusPerQueue < 18446744073709551616
  schedInQueueSize_pos : 0 < schedInQueueSize
  schedBatchSize_pos : 0 < schedBatchSize

namespace SubmitConf

/-- The number of queues that `mpsc_alloc` computes, and asserts to be
positive. -/
def nqueues (conf : SubmitConf) : Nat :=
  u64 (conf.cpus + conf.schedCpusPerQueue - 1) / conf.schedCpusPerQueue

/-- The subqueue that `mpsc_push` chooses. -/
def index (conf : SubmitConf) (cpu : Int) : Nat :=
  if cpu < 0 then conf.nqueues else cpu.toNat / conf.schedCpusPerQueue

variable {conf : SubmitConf}

/-- The number of CPUs per queue is not so large that the sum wraps. -/
theorem cpus_le_mul (halloc : 0 < conf.nqueues) :
    conf.cpus ≤ conf.nqueues * conf.schedCpusPerQueue := by
  have hpos := conf.schedCpusPerQueue_pos
  have hlt := conf.schedCpusPerQueue_lt
  have hcpus := conf.cpus_lt
  rw [nqueues] at halloc ⊢
  have hle := (Nat.div_pos_iff.mp halloc).2
  have hsum : u64 (conf.cpus + conf.schedCpusPerQueue - 1)
      = conf.cpus + conf.schedCpusPerQueue - 1 := by
    unfold u64 at hle ⊢
    omega
  have hdiv := Nat.div_add_mod (conf.cpus + conf.schedCpusPerQueue - 1) conf.schedCpusPerQueue
  have hmod := Nat.mod_lt (conf.cpus + conf.schedCpusPerQueue - 1) hpos
  rw [hsum, Nat.mul_comm]
  omega

/-- The assertion of `mpsc_push` holds, and the subqueue exists. -/
theorem index_le (halloc : 0 < conf.nqueues) {cpu : Int} (hcpu : cpu < conf.cpus) :
    (cpu < 0 ∨ cpu.toNat < conf.nqueues * conf.schedCpusPerQueue) ∧ conf.index cpu ≤ conf.nqueues := by
  have hle := conf.cpus_le_mul halloc
  refine ⟨by omega, ?_⟩
  unfold index
  split
  · exact Nat.le_refl _
  · exact Nat.le_of_lt ((Nat.div_lt_iff_lt_mul conf.schedCpusPerQueue_pos).mpr (by omega))

end SubmitConf

/-! ## One buffer -/

section Buffer

variable {α : Type*} (size : Nat)

/-- `spsc_push`; `none` when it returns 0 -/
def spscPush (queue : Spsc α) (value : α) : Option (Spsc α) :=
  let next := (queue.head + 1) % size
  if next = queue.tail then none
  else some { queue with entries := Function.update queue.entries queue.head value, head := next }

/-- The loop of `spsc_pop_batch` from `tail` on, and the tail after it -/
def copyEntries (queue : Spsc α) : Nat → Nat → List α × Nat
  | 0, tail => ([], tail)
  | n + 1, tail =>
      let (values, last) := copyEntries queue n ((tail + 1) % size)
      (queue.entries tail :: values, last)

def spscPopBatch (queue : Spsc α) (cnt : Nat) : List α × Spsc α :=
  if queue.head = queue.tail then ([], queue)
  else
    let remaining :=
      if queue.head > queue.tail then queue.head - queue.tail else size - queue.tail + queue.head
    let (values, tail) := copyEntries size queue (min cnt remaining) queue.tail
    (values, { queue with tail := tail })

end Buffer

/-! ## The queue -/

/-- `mpsc_queue_t` -/
structure SubmitQueue where
  queues : Nat → Spsc TaskId
  current : Nat

namespace SubmitQueue

def setQueue (q : SubmitQueue) (i : Nat) (b : Spsc TaskId) : SubmitQueue :=
  { q with queues := Function.update q.queues i b }

variable (conf : SubmitConf)

/-- `mpsc_push` -/
def mpscPush (q : SubmitQueue) (value : TaskId) (cpu : Int) : Option SubmitQueue :=
  (spscPush conf.schedInQueueSize (q.queues (conf.index cpu)) value).map (q.setQueue (conf.index cpu))

/-- The loop of `mpsc_pop_batch`, with the values popped so far -/
def popLoop (cnt start : Nat) : Nat → SubmitQueue → Nat → List TaskId → Option (List TaskId × SubmitQueue)
  | 0, _, _, _ => none
  | n + 1, q, current, value =>
      let (ret, b) := spscPopBatch conf.schedInQueueSize (q.queues current) (cnt - value.length)
      let value := value ++ ret
      let next := (current + 1) % (conf.nqueues + 1)
      if next ≠ start ∧ value.length < cnt then
        popLoop cnt start n (q.setQueue current b) next value
      else some (value, { q.setQueue current b with current := next })

/-- `mpsc_pop_batch`: it goes round the subqueues once. -/
def mpscPopBatch (q : SubmitQueue) (cnt : Nat) : Option (List TaskId × SubmitQueue) :=
  popLoop conf cnt q.current (conf.nqueues + 1) q q.current []

/-- The loop of `scheduler_process_ready_tasks`, with the tasks that it puts
into the scheduler -/
def processReadyTasks : Nat → SubmitQueue → Option (List TaskId × SubmitQueue)
  | 0, _ => none
  | n + 1, q =>
      match mpscPopBatch conf q conf.schedBatchSize with
      | none => none
      | some ([], q) => some ([], q)
      | some (t :: ts, q) =>
          match processReadyTasks n q with
          | none => none
          | some (rest, q) => some (t :: ts ++ rest, q)

/-- `scheduler_submit_internal`, with the number of times that it acquires
the delegation lock -/
def schedulerSubmitInternal (t : TaskId) (cpu : Int) : Nat → SubmitQueue → Option (Nat × SubmitQueue)
  | 0, _ => none
  | n + 1, q =>
      match q.mpscPush conf t cpu with
      | some q => some (0, q)
      | none =>
          match processReadyTasks conf n q with
          | none => none
          | some (_, q) =>
              match schedulerSubmitInternal t cpu n q with
              | none => none
              | some (acquired, q) => some (acquired + 1, q)

/-- A state of the queue that `mpsc_alloc` has allocated -/
structure Ok (q : SubmitQueue) : Prop where
  allocated : 0 < conf.nqueues
  current_le : q.current ≤ conf.nqueues
  head_lt : ∀ i, (q.queues i).head < conf.schedInQueueSize
  tail_lt : ∀ i, (q.queues i).tail < conf.schedInQueueSize

/-- The number of tasks in a subqueue -/
def stored (q : SubmitQueue) (i : Nat) : Nat :=
  distance conf.schedInQueueSize (q.queues i).head (q.queues i).tail

def totalStored (q : SubmitQueue) : Nat := ∑ i ∈ Finset.range (conf.nqueues + 1), q.stored conf i

def Empty (q : SubmitQueue) : Prop := ∀ i ≤ conf.nqueues, (q.queues i).head = (q.queues i).tail

end SubmitQueue

/-! ## A batch -/

section Buffer

variable {α : Type*} {size : Nat} {queue : Spsc α}

theorem length_copyEntries : ∀ (n tail : Nat), (copyEntries size queue n tail).1.length = n
  | 0, _ => rfl
  | n + 1, tail => by
      rw [copyEntries, List.length_cons, length_copyEntries n]

theorem copyEntries_tail (ht : queue.tail < size) :
    ∀ n tail, tail < size → (copyEntries size queue n tail).2 = (tail + n) % size
  | 0, tail, hlt => (Nat.mod_eq_of_lt hlt).symm
  | n + 1, tail, hlt => by
      rw [copyEntries]
      show (copyEntries size queue n ((tail + 1) % size)).2 = _
      rw [copyEntries_tail ht n _ (wrap_lt hlt 1), Nat.mod_add_mod, Nat.add_assoc, Nat.add_comm 1]

/-- What is popped is no longer there. -/
theorem spscPopBatch_spec (hh : queue.head < size) (ht : queue.tail < size) (cnt : Nat) :
    (spscPopBatch size queue cnt).1.length = min cnt (distance size queue.head queue.tail)
      ∧ (spscPopBatch size queue cnt).2.head = queue.head
      ∧ (spscPopBatch size queue cnt).2.tail < size
      ∧ distance size queue.head (spscPopBatch size queue cnt).2.tail
        + (spscPopBatch size queue cnt).1.length = distance size queue.head queue.tail := by
  by_cases hempty : queue.head = queue.tail
  · have hzero : distance size queue.head queue.tail = 0 := (distance_eq_zero_iff ht).mpr hempty
    rw [spscPopBatch, if_pos hempty, hzero]
    exact ⟨by simp, rfl, ht, Nat.zero_add _⟩
  · have hremaining : (if queue.head > queue.tail then queue.head - queue.tail
        else size - queue.tail + queue.head) = distance size queue.head queue.tail := by
      unfold distance
      split <;> split <;> omega
    have hle : min cnt (distance size queue.head queue.tail) ≤ distance size queue.head queue.tail :=
      Nat.min_le_right _ _
    rw [spscPopBatch, if_neg hempty, hremaining]
    refine ⟨length_copyEntries _ _, rfl, ?_, ?_⟩
    · show (copyEntries size queue _ queue.tail).2 < size
      rw [copyEntries_tail ht _ _ ht]
      exact wrap_lt ht _
    · show distance size queue.head (copyEntries size queue _ queue.tail).2
        + (copyEntries size queue _ queue.tail).1.length = _
      rw [copyEntries_tail ht _ _ ht, length_copyEntries, distance_advance_tail hh ht hle]
      omega

/-- A buffer of two slots or more has room for one value when it is empty. -/
theorem spscPush_isSome_iff (hh : queue.head < size) (hempty : queue.head = queue.tail) (value : α) :
    (spscPush size queue value).isSome ↔ 2 ≤ size := by
  have hnext : (queue.head + 1) % size = queue.tail ↔ size = 1 := by
    rw [wrap_eq hh (by omega), ← hempty]
    split <;> omega
  unfold spscPush
  by_cases hone : size = 1
  · rw [if_pos (hnext.mpr hone)]
    simp [hone]
  · rw [if_neg fun h => hone (hnext.mp h)]
    simp only [Option.isSome_some, true_iff]
    omega

end Buffer

namespace SubmitQueue

variable {conf : SubmitConf} {q q' : SubmitQueue} {cnt : Nat}

theorem setQueue_self (i : Nat) (b : Spsc TaskId) : (q.setQueue i b).queues i = b :=
  Function.update_self ..

theorem setQueue_ne {i j : Nat} (h : j ≠ i) (b : Spsc TaskId) :
    (q.setQueue i b).queues j = q.queues j := Function.update_of_ne h ..

theorem totalStored_setQueue {i : Nat} (hi : i ≤ conf.nqueues) (b : Spsc TaskId) :
    (q.setQueue i b).totalStored conf + q.stored conf i
      = q.totalStored conf + distance conf.schedInQueueSize b.head b.tail := by
  have hin : i ∈ Finset.range (conf.nqueues + 1) := Finset.mem_range.mpr (Nat.lt_succ_of_le hi)
  have hrest : ∑ j ∈ (Finset.range (conf.nqueues + 1)).erase i, (q.setQueue i b).stored conf j
      = ∑ j ∈ (Finset.range (conf.nqueues + 1)).erase i, q.stored conf j := by
    refine Finset.sum_congr rfl fun j hj => ?_
    rw [stored, stored, setQueue_ne (Finset.ne_of_mem_erase hj)]
  have hself : (q.setQueue i b).stored conf i = distance conf.schedInQueueSize b.head b.tail := by
    rw [stored, setQueue_self]
  rw [totalStored, totalStored, ← Finset.add_sum_erase _ _ hin,
    ← Finset.add_sum_erase _ (q.stored conf) hin, hrest, hself]
  omega

theorem Ok.setQueue (h : q.Ok conf) {i : Nat} {b : Spsc TaskId} (hh : b.head < conf.schedInQueueSize)
    (ht : b.tail < conf.schedInQueueSize) : (q.setQueue i b).Ok conf := by
  refine ⟨h.allocated, h.current_le, fun j => ?_, fun j => ?_⟩
  · by_cases hj : j = i
    · subst hj
      rwa [setQueue_self]
    · rw [setQueue_ne hj]
      exact h.head_lt j
  · by_cases hj : j = i
    · subst hj
      rwa [setQueue_self]
    · rw [setQueue_ne hj]
      exact h.tail_lt j

/-- The loop of a batch, with `r` subqueues to go. It ends; the queue loses
what the batch gains; and it gains nothing only if these are empty. -/
theorem popLoop_spec {start : Nat} (hstart : start ≤ conf.nqueues) {r : Nat} :
    ∀ {q : SubmitQueue} {current j : Nat} {value : List TaskId}, q.Ok conf →
      current = (start + j) % (conf.nqueues + 1) → j + r = conf.nqueues + 1 → 0 < r →
      value.length < cnt →
      ∃ batch q', popLoop conf cnt start r q current value = some (value ++ batch, q') ∧ q'.Ok conf
        ∧ q'.totalStored conf + batch.length = q.totalStored conf
        ∧ (batch = [] → q'.queues = q.queues
          ∧ ∀ i, j ≤ i → i ≤ conf.nqueues → q.stored conf ((start + i) % (conf.nqueues + 1)) = 0) := by
  induction r with
  | zero => exact fun _ _ _ hr => absurd hr (Nat.lt_irrefl 0)
  | succ r ih =>
      intro q current j value hok hcurrent hj _ hlen
      have hle : current ≤ conf.nqueues := by
        rw [hcurrent]
        exact Nat.le_of_lt_succ (Nat.mod_lt _ (Nat.succ_pos _))
      obtain ⟨hret, hhead, htail, hdist⟩ := spscPopBatch_spec (hok.head_lt current)
        (hok.tail_lt current) (cnt - value.length)
      obtain ⟨ret, b, hpop⟩ : ∃ ret b, spscPopBatch conf.schedInQueueSize (q.queues current)
        (cnt - value.length) = (ret, b) := ⟨_, _, rfl⟩
      rw [hpop] at hret hhead htail hdist
      have hok' : (q.setQueue current b).Ok conf := hok.setQueue (hhead ▸ hok.head_lt current) htail
      have htotal : (q.setQueue current b).totalStored conf + ret.length = q.totalStored conf := by
        have hsum := totalStored_setQueue (q := q) hle b
        dsimp only at hhead hdist
        rw [hhead, stored] at hsum
        omega
      -- nothing was popped because nothing was there
      have hnone : ret = [] → q.stored conf current = 0 ∧ (q.setQueue current b).queues = q.queues := by
        intro hnil
        rw [hnil, List.length_nil] at hret
        have hzero : q.stored conf current = 0 := by
          rw [stored]
          omega
        have hsame : (q.queues current).head = (q.queues current).tail :=
          (distance_eq_zero_iff (hok.tail_lt current)).mp hzero
        rw [spscPopBatch, if_pos hsame] at hpop
        refine ⟨hzero, ?_⟩
        rw [setQueue, ← (Prod.mk.inj hpop).2, Function.update_eq_self]
      have hnext : (current + 1) % (conf.nqueues + 1) = (start + (j + 1)) % (conf.nqueues + 1) := by
        rw [hcurrent, Nat.mod_add_mod, Nat.add_assoc]
      have hlast : r = 0 → (current + 1) % (conf.nqueues + 1) = start := by
        intro hr
        rw [hnext, show j + 1 = conf.nqueues + 1 by omega, Nat.add_mod_right,
          Nat.mod_eq_of_lt (Nat.lt_succ_of_le hstart)]
      rw [popLoop, hpop]
      by_cases hmore : (current + 1) % (conf.nqueues + 1) ≠ start ∧ (value ++ ret).length < cnt
      · obtain ⟨batch, q', hloop, hq', hsum, hempty⟩ := ih hok' hnext (by omega)
          (Nat.pos_of_ne_zero fun hr => hmore.1 (hlast hr)) hmore.2
        refine ⟨ret ++ batch, q', ?_, hq', ?_, fun hnil => ?_⟩
        · rw [← List.append_assoc, ← hloop]
          exact if_pos hmore
        · rw [List.length_append]
          omega
        · obtain ⟨hnil, hbatch⟩ := List.append_eq_nil_iff.mp hnil
          obtain ⟨hzero, hqueues⟩ := hnone hnil
          obtain ⟨hqueues', hrest⟩ := hempty hbatch
          refine ⟨hqueues'.trans hqueues, fun i hji hi => ?_⟩
          rcases Nat.eq_or_lt_of_le hji with rfl | hlt
          · exact hcurrent ▸ hzero
          · have := hrest i hlt hi
            rwa [stored, hqueues] at this
      · refine ⟨ret, _, if_neg hmore, ⟨hok'.allocated, ?_, hok'.head_lt, hok'.tail_lt⟩, htotal,
          fun hnil => ?_⟩
        · exact Nat.le_of_lt_succ (Nat.mod_lt _ (Nat.succ_pos _))
        · -- nothing was popped, so this was the last subqueue
          obtain ⟨hzero, hqueues⟩ := hnone hnil
          refine ⟨hqueues, fun i hji hi => ?_⟩
          rw [hnil, List.append_nil] at hmore
          have hback : (current + 1) % (conf.nqueues + 1) = start := by
            by_contra hne
            exact hmore ⟨hne, hlen⟩
          have hr : r = 0 := by
            by_contra hr
            have heq : (start + (j + 1)) % (conf.nqueues + 1) = (start + 0) % (conf.nqueues + 1) := by
              rw [← hnext, hback, Nat.add_zero, Nat.mod_eq_of_lt (Nat.lt_succ_of_le hstart)]
            have := wrap_inj (Nat.lt_succ_of_le hstart) (by omega) (by omega) heq
            omega
          obtain rfl : i = j := by omega
          exact hcurrent ▸ hzero

theorem mpscPopBatch_spec (h : q.Ok conf) (hcnt : 0 < cnt) :
    ∃ batch q', mpscPopBatch conf q cnt = some (batch, q') ∧ q'.Ok conf
      ∧ q'.totalStored conf + batch.length = q.totalStored conf ∧ (batch = [] → q'.Empty conf) := by
  have hlt : q.current < conf.nqueues + 1 := Nat.lt_succ_of_le h.current_le
  have hnil : ([] : List TaskId).length < cnt := hcnt
  obtain ⟨batch, q', hpop, hq', hsum, hempty⟩ := popLoop_spec h.current_le (j := 0) h
    (by rw [Nat.add_zero, Nat.mod_eq_of_lt hlt]) (Nat.zero_add _) (Nat.succ_pos _) hnil
  refine ⟨batch, q', by rw [mpscPopBatch, hpop, List.nil_append], hq', hsum, fun hnil i hi => ?_⟩
  obtain ⟨hqueues, hzero⟩ := hempty hnil
  rw [hqueues]
  -- the subqueues from the current one on are all of them
  obtain ⟨k, hk, hki⟩ : ∃ k ≤ conf.nqueues, (q.current + k) % (conf.nqueues + 1) = i := by
    by_cases hci : q.current ≤ i
    · exact ⟨i - q.current, by omega, by rw [Nat.add_sub_cancel' hci]; exact Nat.mod_eq_of_lt (by omega)⟩
    · refine ⟨i + (conf.nqueues + 1) - q.current, by omega, ?_⟩
      rw [Nat.add_sub_cancel' (by omega), Nat.add_mod_right]
      exact Nat.mod_eq_of_lt (by omega)
  have := hzero k (Nat.zero_le k) hk
  rw [hki] at this
  exact (distance_eq_zero_iff (h.tail_lt i)).mp this

/-! ## The loops -/

/-- `scheduler_process_ready_tasks` ends, and empties the queue. -/
theorem processReadyTasks_spec {n : Nat} :
    ∀ {q : SubmitQueue}, q.Ok conf → q.totalStored conf < n →
      ∃ tasks q', processReadyTasks conf n q = some (tasks, q') ∧ q'.Ok conf ∧ q'.Empty conf
        ∧ tasks.length = q.totalStored conf := by
  induction n with
  | zero => exact fun _ hn => absurd hn (Nat.not_lt_zero _)
  | succ n ih =>
      intro q h hn
      obtain ⟨batch, q₁, hpop, hq₁, hsum, hempty⟩ := mpscPopBatch_spec h conf.schedBatchSize_pos
      rw [processReadyTasks, hpop]
      cases batch with
      | nil =>
          have hdone := hempty rfl
          refine ⟨[], q₁, rfl, hq₁, hdone, ?_⟩
          have hzero : q₁.totalStored conf = 0 := Finset.sum_eq_zero fun i hi =>
            (distance_eq_zero_iff (hq₁.tail_lt i)).mpr
              (hdone i (Nat.le_of_lt_succ (Finset.mem_range.mp hi)))
          rw [List.length_nil] at hsum ⊢
          omega
      | cons t ts =>
          rw [List.length_cons] at hsum
          obtain ⟨rest, q₂, hrest, hq₂, hdone, hlen⟩ := ih hq₁ (by omega)
          refine ⟨t :: ts ++ rest, q₂, by simp only [hrest], hq₂, hdone, ?_⟩
          rw [List.length_append, List.length_cons, hlen]
          omega

theorem processReadyTasks_ok {n : Nat} {tasks : List TaskId} (h : q.Ok conf)
    (hrun : processReadyTasks conf n q = some (tasks, q')) : q'.Ok conf := by
  induction n generalizing q tasks with
  | zero => cases hrun
  | succ n ih =>
      obtain ⟨batch, q₁, hpop, hq₁, -, -⟩ := mpscPopBatch_spec h conf.schedBatchSize_pos
      rw [processReadyTasks, hpop] at hrun
      cases batch with
      | nil =>
          obtain rfl := (Prod.mk.inj (Option.some.inj hrun)).2
          exact hq₁
      | cons t ts =>
          cases hrest : processReadyTasks conf n q₁ with
          | none =>
              simp only [hrest] at hrun
              cases hrun
          | some result =>
              simp only [hrest] at hrun
              obtain rfl := (Prod.mk.inj (Option.some.inj hrun)).2
              exact ih hq₁ hrest

theorem mpscPush_isSome_iff (h : q.Ok conf) {cpu : Int} (hcpu : cpu < conf.cpus)
    (hempty : q.Empty conf) (t : TaskId) :
    (q.mpscPush conf t cpu).isSome ↔ 2 ≤ conf.schedInQueueSize := by
  rw [mpscPush, Option.isSome_map]
  exact spscPush_isSome_iff (h.head_lt _) (hempty _ (conf.index_le h.allocated hcpu).2) t

/-- With room in an empty subqueue, the lock is acquired at most once. -/
theorem schedulerSubmitInternal_ends (h : q.Ok conf) (hsize : 2 ≤ conf.schedInQueueSize) {cpu : Int}
    (hcpu : cpu < conf.cpus) (t : TaskId) :
    ∃ n acquired q', schedulerSubmitInternal conf t cpu n q = some (acquired, q') ∧ acquired ≤ 1 := by
  cases hpush : q.mpscPush conf t cpu with
  | some q' => exact ⟨1, 0, q', by rw [schedulerSubmitInternal, hpush], Nat.zero_le 1⟩
  | none =>
      obtain ⟨tasks, q₁, hprocess, hq₁, hempty, -⟩ := processReadyTasks_spec (n := q.totalStored conf + 1)
        h (Nat.lt_succ_self _)
      obtain ⟨q', hpush'⟩ := Option.isSome_iff_exists.mp
        ((mpscPush_isSome_iff hq₁ hcpu hempty t).mpr hsize)
      refine ⟨q.totalStored conf + 2, 1, q', ?_, Nat.le_refl 1⟩
      rw [schedulerSubmitInternal, hpush]
      simp only [hprocess]
      rw [schedulerSubmitInternal, hpush']

/-- A queue of one slot has no room, and the loop goes on. -/
theorem schedulerSubmitInternal_stuck (hsize : conf.schedInQueueSize = 1) {cpu : Int} {t : TaskId}
    {n : Nat} : ∀ {q : SubmitQueue}, q.Ok conf → schedulerSubmitInternal conf t cpu n q = none := by
  induction n with
  | zero => exact fun _ => rfl
  | succ n ih =>
      intro q h
      have hpush : q.mpscPush conf t cpu = none := by
        have hhead := h.head_lt (conf.index cpu)
        have htail := h.tail_lt (conf.index cpu)
        rw [mpscPush, spscPush, if_pos, Option.map_none]
        rw [hsize, Nat.mod_one]
        omega
      rw [schedulerSubmitInternal, hpush]
      cases hprocess : processReadyTasks conf n q with
      | none => rfl
      | some result =>
          obtain ⟨tasks, q₁⟩ := result
          simp only [ih (processReadyTasks_ok h hprocess)]

/-- After `scheduler_process_ready_tasks`, which ends, a push to any
subqueue succeeds, and `scheduler_submit_internal` ends with at most one
acquisition of the delegation lock: exactly if `sched_in_queue_size` is at
least two. -/
theorem submission_gets_through (conf : SubmitConf) (q : SubmitQueue) (h : q.Ok conf) :
    ((∃ n tasks q', processReadyTasks conf n q = some (tasks, q')
        ∧ ∀ i ≤ conf.nqueues, ∀ t, (spscPush conf.schedInQueueSize (q'.queues i) t).isSome)
      ∧ ∀ (cpu : Int) (t : TaskId), cpu < conf.cpus →
        ∃ n acquired q', schedulerSubmitInternal conf t cpu n q = some (acquired, q') ∧ acquired ≤ 1)
    ↔ 2 ≤ conf.schedInQueueSize := by
  constructor
  · rintro ⟨-, hsubmit⟩
    by_contra hsize
    have hone : conf.schedInQueueSize = 1 := by
      have := conf.schedInQueueSize_pos
      omega
    -- a thread without a CPU
    obtain ⟨n, acquired, q', hrun, -⟩ := hsubmit (-1) 0 (by omega)
    rw [schedulerSubmitInternal_stuck hone h] at hrun
    cases hrun
  · intro hsize
    refine ⟨?_, fun cpu t hcpu => schedulerSubmitInternal_ends h hsize hcpu t⟩
    obtain ⟨tasks, q', hrun, hq', hempty, -⟩ := processReadyTasks_spec (n := q.totalStored conf + 1) h
      (Nat.lt_succ_self _)
    exact ⟨_, tasks, q', hrun, fun i hi t =>
      (spscPush_isSome_iff (hq'.head_lt i) (hempty i hi) t).mpr hsize⟩

/-- Two CPUs, each with a queue of the given number of slots -/
def twoCpus (size : Nat) (hsize : 0 < size) : SubmitConf :=
  ⟨2, 1, size, 64, by decide, by decide, by decide, hsize, by decide⟩

/-- A task in every queue of two slots -/
def fullQueue : SubmitQueue := ⟨fun _ => ⟨1, 0, fun _ => 5⟩, 0⟩

/-- The first push finds no room. The queue is emptied under the lock, and
the second push succeeds. -/
theorem submission_gets_through_two :
    fullQueue.Ok (twoCpus 2 (by decide)) ∧ fullQueue.mpscPush (twoCpus 2 (by decide)) 7 0 = none
      ∧ ∃ n q', schedulerSubmitInternal (twoCpus 2 (by decide)) 7 0 n fullQueue = some (1, q') := by
  have hok : fullQueue.Ok (twoCpus 2 (by decide)) :=
    ⟨by decide, by decide, fun _ => Nat.lt_succ_self 1, fun _ => Nat.succ_pos _⟩
  have hpush : fullQueue.mpscPush (twoCpus 2 (by decide)) 7 0 = none := rfl
  obtain ⟨n, acquired, q', hrun, hle⟩ :=
    ((submission_gets_through _ fullQueue hok).mpr (by decide)).2 0 7 (by decide)
  refine ⟨hok, hpush, n, q', ?_⟩
  obtain rfl : acquired = 1 := by
    cases n with
    | zero => cases hrun
    | succ n =>
        rw [schedulerSubmitInternal, hpush] at hrun
        dsimp only at hrun
        split at hrun
        · cases hrun
        · split at hrun
          · cases hrun
          · have hacquired := (Prod.mk.inj (Option.some.inj hrun)).1
            omega
  exact hrun

def emptyQueue : SubmitQueue := ⟨fun _ => ⟨0, 0, fun _ => 0⟩, 0⟩

/-- With one slot, the first submission does not end, though the queue is
empty and the configuration has been checked. -/
theorem submission_hangs :
    emptyQueue.Ok (twoCpus 1 (by decide)) ∧ emptyQueue.Empty (twoCpus 1 (by decide))
      ∧ ¬ ∃ n acquired q', schedulerSubmitInternal (twoCpus 1 (by decide)) 7 0 n emptyQueue
        = some (acquired, q') ∧ acquired ≤ 1 := by
  have hok : emptyQueue.Ok (twoCpus 1 (by decide)) :=
    ⟨by decide, by decide, fun _ => Nat.succ_pos _, fun _ => Nat.succ_pos _⟩
  refine ⟨hok, fun _ _ => rfl, ?_⟩
  rintro ⟨n, acquired, q', hrun, -⟩
  rw [schedulerSubmitInternal_stuck rfl hok] at hrun
  cases hrun

end SubmitQueue

end Nosv
