import Mathlib.Algebra.BigOperators.Group.Finset.Basic
import Mathlib.Algebra.Order.BigOperators.Group.Finset
import Nosv.Lib.CircularBuffer
import Nosv.Lib.Run
import Nosv.Task

/-!
# The input queue of the scheduler

`mpsc_queue_t`: one circular buffer (`spsc_queue_t`) for every group of
`cpus_per_queue` CPUs and one more for threads without a CPU. Producers
take the spinlock of a buffer and push; the holder of the scheduler is the
only consumer and takes values from the buffers in turn.

Producers and consumer take steps in any order. A step is one load or
store of `head` or `tail`, one access to an entry, or one operation on a
spinlock; what a thread does with its local variables between two of
these belongs to the step before. Three logs record what has
happened to every buffer: `accepted`, the values in the order of the
stores of `head`; `returned`, those whose push has returned; and
`delivered`, what batches have brought to the consumer.

A buffer is in a block of `salloc`, which has no blocks of more than half
a megabyte, so the `int` that counts the copies of a batch does not wrap.
-/

namespace Nosv

open CircularBuffer Run

/-- The arguments of `mpsc_alloc`: the number of CPUs is an `int`, and
`cpus_per_queue` and the number of slots come from the configuration. -/
structure InQueueConf where
  cpus : Nat
  cpusPerQueue : Nat
  slots : Nat
  cpus_pos : 1 ≤ cpus
  cpus_lt : cpus < 2147483648
  cpusPerQueue_pos : 1 ≤ cpusPerQueue
  cpusPerQueue_lt : cpusPerQueue < 9223372036854775808
  slots_ge : 2 ≤ slots

namespace InQueueConf

/-- The rounded number of queues that `mpsc_alloc` computes. -/
def nqueues (conf : InQueueConf) : Nat :=
  u64 (conf.cpus + conf.cpusPerQueue - 1) / conf.cpusPerQueue

/-- The subqueue that `mpsc_push` chooses. -/
def index (conf : InQueueConf) (cpu : Int) : Nat :=
  if cpu < 0 then conf.nqueues else cpu.toNat / conf.cpusPerQueue

/-- The assertion of `mpsc_push`. -/
def PushAssert (conf : InQueueConf) (cpu : Int) : Prop :=
  cpu < 0 ∨ cpu.toNat < u64 (conf.nqueues * conf.cpusPerQueue)

variable (conf : InQueueConf)

theorem cpus_le_mul :
    conf.cpus ≤ conf.nqueues * conf.cpusPerQueue
      ∧ conf.nqueues * conf.cpusPerQueue < 18446744073709551616 := by
  have hpos := conf.cpusPerQueue_pos
  have hlt := conf.cpusPerQueue_lt
  have hcpus := conf.cpus_lt
  have hsum : u64 (conf.cpus + conf.cpusPerQueue - 1) = conf.cpus + conf.cpusPerQueue - 1 :=
    Nat.mod_eq_of_lt (by omega)
  have hdiv := Nat.div_add_mod (conf.cpus + conf.cpusPerQueue - 1) conf.cpusPerQueue
  have hmod := Nat.mod_lt (conf.cpus + conf.cpusPerQueue - 1) hpos
  rw [nqueues, hsum, Nat.mul_comm]
  constructor
  · omega
  · omega

/-- The chosen subqueue exists. -/
theorem index_le {cpu : Int} (hcpu : cpu < conf.cpus) : conf.index cpu ≤ conf.nqueues := by
  unfold index
  split
  · exact Nat.le_refl _
  · refine Nat.le_of_lt ((Nat.div_lt_iff_lt_mul conf.cpusPerQueue_pos).mpr ?_)
    have := conf.cpus_le_mul.1
    omega

theorem pushAssert {cpu : Int} (hcpu : cpu < conf.cpus) : conf.PushAssert cpu := by
  obtain ⟨hle, hlt⟩ := conf.cpus_le_mul
  unfold PushAssert
  rw [show u64 (conf.nqueues * conf.cpusPerQueue) = _ from Nat.mod_eq_of_lt hlt]
  omega

end InQueueConf

/-! ## The machine -/

/-- `spsc_queue_t` -/
structure Spsc (α : Type*) where
  head : Nat
  tail : Nat
  entries : Nat → α

/-- Where a producer is in `mpsc_push`: at the operation of this name, on
subqueue `q` and with value `v`. -/
inductive PushPc (α : Type*) where
  | idle
  | lock (q : Nat) (v : α)
  | loadHead (q : Nat) (v : α)
  | loadTail (q : Nat) (v : α) (head : Nat)
  | write (q : Nat) (v : α) (head : Nat)
  | storeHead (q : Nat) (v : α) (head : Nat)
  | unlock (q : Nat) (v : α) (ret : Bool)

/-- Where the consumer is in `mpsc_pop_batch`. In `copy`, `tail` is the
local variable, `left` the number of copies to go and `copied` the values
copied so far. -/
inductive PopPc (α : Type*) where
  | idle
  | loadHead
  | loadTail (head : Nat)
  | copy (tail left : Nat) (copied : List α)

/-- The consumer with the local variables of `mpsc_pop_batch`. The values
of the buffer are tagged with their subqueue; `total` is their number. -/
structure Consumer (α : Type*) where
  pc : PopPc α
  cnt : Nat
  start : Nat
  current : Nat
  value : List (Nat × α)

structure InQueue (α : Type*) where
  sub : Nat → Spsc α
  qspin : Nat → Option Nat
  current : Nat
  producer : Nat → PushPc α
  consumer : Consumer α
  accepted : Nat → List α
  returned : Nat → List α
  delivered : List (Nat × α)

/-- Who moves: producer `p` or the consumer, by a call or by a step. -/
inductive InOp (α : Type*) where
  | push (p : Nat) (cpu : Int) (v : α)
  | producer (p : Nat)
  | pop (cnt : Nat)
  | consumer

namespace InQueue

variable {α : Type*} (conf : InQueueConf)

def setSub (s : InQueue α) (q : Nat) (b : Spsc α) : InQueue α :=
  { s with sub := Function.update s.sub q b }

def setProducer (s : InQueue α) (p : Nat) (pc : PushPc α) : InQueue α :=
  { s with producer := Function.update s.producer p pc }

def setPc (s : InQueue α) (pc : PopPc α) : InQueue α :=
  { s with consumer := { s.consumer with pc := pc } }

/-- `mpsc_alloc`: empty buffers, whatever their entries hold. -/
def start (entries : Nat → Nat → α) : InQueue α where
  sub q := ⟨0, 0, entries q⟩
  qspin _ := none
  current := 0
  producer _ := .idle
  consumer := ⟨.idle, 0, 0, 0, []⟩
  accepted _ := []
  returned _ := []
  delivered := []

/-- `mpsc_push` with `spsc_push` -/
def pushStep (s : InQueue α) (p : Nat) : Option (InQueue α) :=
  match s.producer p with
  | .idle => none
  | .lock q v =>
      if s.qspin q = none then
        some (setProducer { s with qspin := Function.update s.qspin q (some p) } p (.loadHead q v))
      else none
  | .loadHead q v => some (s.setProducer p (.loadTail q v (s.sub q).head))
  | .loadTail q v head =>
      if (head + 1) % conf.slots = (s.sub q).tail then some (s.setProducer p (.unlock q v false))
      else some (s.setProducer p (.write q v head))
  | .write q v head =>
      let b := s.sub q
      some ((s.setSub q { b with entries := Function.update b.entries head v }).setProducer p
        (.storeHead q v head))
  | .storeHead q v head =>
      let s := s.setSub q { s.sub q with head := (head + 1) % conf.slots }
      some (setProducer
        { s with accepted := Function.update s.accepted q (s.accepted q ++ [v]) } p (.unlock q v true))
  | .unlock q v ret =>
      some (setProducer { s with
        qspin := Function.update s.qspin q none
        returned := Function.update s.returned q (s.returned q ++ if ret then [v] else []) } p .idle)

/-- The end of an iteration of `mpsc_pop_batch`, after a subqueue gave the
values `ret`. -/
def nextQueue (s : InQueue α) (ret : List α) : InQueue α :=
  let c := s.consumer
  let value := c.value ++ ret.map (c.current, ·)
  let current := (c.current + 1) % (conf.nqueues + 1)
  if current ≠ c.start ∧ value.length < c.cnt then
    { s with consumer := { c with pc := .loadHead, current := current, value := value } }
  else
    { s with
      consumer := { c with pc := .idle, current := current, value := [] }
      current := current
      delivered := s.delivered ++ value }

/-- `mpsc_pop_batch` with `spsc_pop_batch` -/
def popStep (s : InQueue α) : Option (InQueue α) :=
  let c := s.consumer
  let b := s.sub c.current
  match c.pc with
  | .idle => none
  | .loadHead => some (s.setPc (.loadTail b.head))
  | .loadTail head =>
      if head = b.tail then some (s.nextQueue conf [])
      else
        let remaining := if head > b.tail then head - b.tail else conf.slots - b.tail + head
        some (s.setPc (.copy b.tail (min (c.cnt - c.value.length) remaining) []))
  | .copy tail (left + 1) copied =>
      some (s.setPc (.copy ((tail + 1) % conf.slots) left (copied ++ [b.entries tail])))
  | .copy tail 0 copied => some ((s.setSub c.current { b with tail := tail }).nextQueue conf copied)

def step (s : InQueue α) : InOp α → Option (InQueue α)
  | .push p cpu v =>
      match s.producer p with
      | .idle =>
          if cpu < conf.cpus then some (s.setProducer p (.lock (conf.index cpu) v)) else none
      | _ => none
  | .producer p => s.pushStep conf p
  | .pop cnt =>
      match s.consumer.pc with
      | .idle =>
          if 0 < cnt then some { s with consumer := ⟨.loadHead, cnt, s.current, s.current, []⟩ }
          else none
      | _ => none
  | .consumer => s.popStep conf

end InQueue

/-! ## The invariant -/

section Invariant

variable {α : Type*} (conf : InQueueConf)

/-- The values in a subqueue, the oldest first. -/
def Spsc.stored (b : Spsc α) : List α := contents conf.slots b.entries b.head b.tail

structure Spsc.Ok (b : Spsc α) : Prop where
  head_lt : b.head < conf.slots
  tail_lt : b.tail < conf.slots

/-- The subqueue whose spinlock the producer has. -/
def PushPc.holds : PushPc α → Option Nat
  | .idle | .lock _ _ => none
  | .loadHead q _ | .loadTail q _ _ | .write q _ _ | .storeHead q _ _ | .unlock q _ _ => some q

/-- A value that is in the queue, but whose push has not returned. -/
def PushPc.pending : PushPc α → List α
  | .unlock _ v true => [v]
  | _ => []

/-- The head does not move and the free slot is not lost while a producer
has the spinlock, even though the tail it has seen may be an old one. -/
def PushPc.Ok (sub : Nat → Spsc α) : PushPc α → Prop
  | .idle => True
  | .lock q _ | .loadHead q _ | .unlock q _ _ => q ≤ conf.nqueues
  | .loadTail q _ head => q ≤ conf.nqueues ∧ head = (sub q).head
  | .write q _ head =>
      q ≤ conf.nqueues ∧ head = (sub q).head
        ∧ distance conf.slots (sub q).head (sub q).tail + 1 < conf.slots
  | .storeHead q v head =>
      q ≤ conf.nqueues ∧ head = (sub q).head
        ∧ distance conf.slots (sub q).head (sub q).tail + 1 < conf.slots ∧ (sub q).entries head = v

/-- What a call of `mpsc_pop_batch` keeps between two subqueues. -/
structure Consumer.Busy (c : Consumer α) : Prop where
  current_le : c.current ≤ conf.nqueues
  start_le : c.start ≤ conf.nqueues
  total_lt : c.value.length < c.cnt

/-- The head that the consumer has seen may be an old one; the values up
to it are still there. -/
def Consumer.Ok (sub : Nat → Spsc α) (c : Consumer α) : Prop :=
  match c.pc with
  | .idle => c.value = []
  | .loadHead => c.Busy conf
  | .loadTail head => c.Busy conf ∧ head < conf.slots
      ∧ distance conf.slots head (sub c.current).tail ≤ ((sub c.current).stored conf).length
  | .copy tail left copied => c.Busy conf ∧ tail = ((sub c.current).tail + copied.length) % conf.slots
      ∧ copied.length + left ≤ ((sub c.current).stored conf).length
      ∧ copied = ((sub c.current).stored conf).take copied.length
      ∧ c.value.length + copied.length + left ≤ c.cnt

namespace InQueue

/-- The values that batches have taken from subqueue `q`, in order. -/
def taken (s : InQueue α) (q : Nat) : List α :=
  ((s.delivered ++ s.consumer.value).filter (·.1 = q)).map (·.2)

def pending (s : InQueue α) (q : Nat) : List α :=
  match s.qspin q with
  | some p => (s.producer p).pending
  | none => []

structure Inv (s : InQueue α) : Prop where
  sub : ∀ q, (s.sub q).Ok conf
  lock : ∀ q p, s.qspin q = some p ↔ (s.producer p).holds = some q
  log : ∀ q, s.accepted q = s.taken q ++ (s.sub q).stored conf
  ret : ∀ q, s.accepted q = s.returned q ++ s.pending q
  push : ∀ p, (s.producer p).Ok conf s.sub
  pop : s.consumer.Ok conf s.sub
  current_le : s.current ≤ conf.nqueues

end InQueue

end Invariant

namespace InQueue

variable {α : Type*} {conf : InQueueConf} {s s' : InQueue α} {p q : Nat}

/-! ### Frames -/

/-- A producer depends on the subqueue that it has locked. -/
theorem pushOk_congr {sub sub' : Nat → Spsc α} {pc : PushPc α} (hok : pc.Ok conf sub)
    (hsame : ∀ q, pc.holds = some q → (sub' q).head = (sub q).head
      ∧ distance conf.slots (sub' q).head (sub' q).tail ≤ distance conf.slots (sub q).head (sub q).tail
      ∧ (sub' q).entries = (sub q).entries) : pc.Ok conf sub' := by
  cases pc with
  | idle => trivial
  | lock q v => exact hok
  | loadHead q v => exact hok
  | unlock q v ret => exact hok
  | loadTail q v head =>
      obtain ⟨hq, hhead⟩ := hok
      exact ⟨hq, hhead.trans (hsame q rfl).1.symm⟩
  | write q v head =>
      obtain ⟨hq, hhead, hroom⟩ := hok
      obtain ⟨hsh, hdist, -⟩ := hsame q rfl
      exact ⟨hq, hhead.trans hsh.symm, by omega⟩
  | storeHead q v head =>
      obtain ⟨hq, hhead, hroom, hentry⟩ := hok
      obtain ⟨hsh, hdist, hent⟩ := hsame q rfl
      exact ⟨hq, hhead.trans hsh.symm, by omega, by rw [hent]; exact hentry⟩

/-- The consumer depends on the tail of its subqueue and on the values that
are there; more values may arrive. -/
theorem popOk_congr {sub sub' : Nat → Spsc α} {c : Consumer α} (hok : c.Ok conf sub)
    (htail : (sub' c.current).tail = (sub c.current).tail)
    (hmore : (sub c.current).stored conf <+: (sub' c.current).stored conf) : c.Ok conf sub' := by
  have hlen := hmore.length_le
  unfold Consumer.Ok at hok ⊢
  cases hpc : c.pc with
  | idle => simpa only [hpc] using hok
  | loadHead => simpa only [hpc] using hok
  | loadTail head =>
      simp only [hpc] at hok ⊢
      rw [htail]
      exact ⟨hok.1, hok.2.1, hok.2.2.trans hlen⟩
  | copy tail left copied =>
      simp only [hpc] at hok ⊢
      obtain ⟨hbusy, heq, hleft, hcopied, hcnt⟩ := hok
      rw [htail]
      refine ⟨hbusy, heq, hleft.trans hlen, ?_, hcnt⟩
      rw [List.prefix_iff_eq_take.mp hmore, List.take_take, Nat.min_eq_left (by omega)] at hcopied
      exact hcopied

/-! ### Producers -/

/-- A step of producer `p` on subqueue `q`: everything that it may write. -/
def commit (s : InQueue α) (p q : Nat) (pc : PushPc α) (b : Spsc α) (owner : Option Nat)
    (accepted returned : List α) : InQueue α :=
  { s with
    producer := Function.update s.producer p pc
    sub := Function.update s.sub q b
    qspin := Function.update s.qspin q owner
    accepted := Function.update s.accepted q accepted
    returned := Function.update s.returned q returned }

/-- The condition on a step of a producer: it had the spinlock or takes it,
the values that were there stay, and its own bookkeeping is right. -/
structure Commits (conf : InQueueConf) (s : InQueue α) (p q : Nat) (pc : PushPc α) (b : Spsc α) (owner : Option Nat)
    (accepted returned : List α) : Prop where
  owner_before : s.qspin q = none ∨ s.qspin q = some p
  holds_before : ∀ q', (s.producer p).holds = some q' → q' = q
  owner_after : owner = none ∧ pc.holds = none ∨ owner = some p ∧ pc.holds = some q
  sub : b.Ok conf
  tail : b.tail = (s.sub q).tail
  more : (s.sub q).stored conf <+: b.stored conf
  log : accepted = s.taken q ++ b.stored conf
  ret : accepted = returned ++ if owner = some p then pc.pending else []
  ok : pc.Ok conf (Function.update s.sub q b)

theorem Inv.commit {pc : PushPc α} {b : Spsc α} {owner : Option Nat} {accepted returned : List α}
    (hinv : s.Inv conf) (hc : Commits conf s p q pc b owner accepted returned) :
    (s.commit p q pc b owner accepted returned).Inv conf := by
  -- nobody else has the spinlock of `q`
  have hother : ∀ p', p' ≠ p → (s.producer p').holds ≠ some q := by
    intro p' hne hholds
    rw [← hinv.lock] at hholds
    rcases hc.owner_before with h | h <;> rw [h] at hholds
    · cases hholds
    · exact hne (Option.some.inj hholds).symm
  refine ⟨fun q' => ?_, fun q' p' => ?_, fun q' => ?_, fun q' => ?_, fun p' => ?_, ?_, hinv.current_le⟩
  · by_cases hq : q' = q
    · subst hq
      simpa [InQueue.commit] using hc.sub
    · simpa [InQueue.commit, hq] using hinv.sub q'
  · have hlock := hinv.lock q' p'
    by_cases hq : q' = q <;> by_cases hp : p' = p
    · subst hq hp
      simp only [InQueue.commit, Function.update_self]
      rcases hc.owner_after with ⟨h, h'⟩ | ⟨h, h'⟩ <;> simp [h, h']
    · subst hq
      simp only [InQueue.commit, Function.update_self, Function.update_of_ne hp]
      refine iff_of_false ?_ (hother p' hp)
      rcases hc.owner_after with ⟨h, -⟩ | ⟨h, -⟩ <;> simp [h, Ne.symm hp]
    · subst hp
      simp only [InQueue.commit, Function.update_self, Function.update_of_ne hq]
      refine iff_of_false (fun h => hq (hc.holds_before q' (hlock.mp h))) fun h => ?_
      rcases hc.owner_after with ⟨-, h'⟩ | ⟨-, h'⟩ <;> rw [h'] at h
      · cases h
      · exact hq (Option.some.inj h).symm
    · simpa only [InQueue.commit, Function.update_of_ne hq, Function.update_of_ne hp] using hlock
  · by_cases hq : q' = q
    · subst hq
      simpa [InQueue.commit, taken] using hc.log
    · simpa [InQueue.commit, taken, hq] using hinv.log q'
  · by_cases hq : q' = q
    · subst hq
      simp only [InQueue.commit, pending, Function.update_self]
      rw [hc.ret]
      rcases hc.owner_after with ⟨h, -⟩ | ⟨h, -⟩ <;> simp [h]
    · have hret := hinv.ret q'
      simp only [InQueue.commit, pending, Function.update_of_ne hq] at hret ⊢
      rw [hret]
      cases howner : s.qspin q' with
      | none => rfl
      | some p' =>
          have hp : p' ≠ p := by
            rintro rfl
            exact hq (hc.holds_before q' ((hinv.lock q' p').mp howner))
          simp only [Function.update_of_ne hp]
  · by_cases hp : p' = p
    · subst hp
      simpa [InQueue.commit] using hc.ok
    · simp only [InQueue.commit, Function.update_of_ne hp]
      refine pushOk_congr (hinv.push p') fun q' hholds => ?_
      have hq : q' ≠ q := fun h => hother p' hp (h ▸ hholds)
      rw [Function.update_of_ne hq]
      exact ⟨rfl, Nat.le_refl _, rfl⟩
  · refine popOk_congr hinv.pop ?_ ?_
    · by_cases hq : s.consumer.current = q
      · simpa [InQueue.commit, hq] using hc.tail
      · simp [InQueue.commit, hq]
    · by_cases hq : s.consumer.current = q
      · simpa [InQueue.commit, hq] using hc.more
      · simp [InQueue.commit, hq]

/-- A producer that has the spinlock and only changes its own state. -/
theorem Inv.commits_of_holds {pc : PushPc α} (hinv : s.Inv conf) (hholds : (s.producer p).holds = some q)
    (hpc : pc.holds = some q) (hpend : pc.pending = (s.producer p).pending) (hok : pc.Ok conf s.sub) :
    Commits conf s p q pc (s.sub q) (s.qspin q) (s.accepted q) (s.returned q) := by
  have howner := (hinv.lock q p).mpr hholds
  refine ⟨Or.inr howner, fun q' h => ?_, Or.inr ⟨howner, hpc⟩, hinv.sub q, rfl,
    List.prefix_refl _, hinv.log q, ?_, ?_⟩
  · rw [hholds] at h
    exact (Option.some.inj h).symm
  · rw [if_pos howner, hpend]
    have hret := hinv.ret q
    simpa only [pending, howner] using hret
  · rw [Function.update_eq_self]
    exact hok

theorem commit_self (s : InQueue α) (p q : Nat) (pc : PushPc α) :
    s.commit p q pc (s.sub q) (s.qspin q) (s.accepted q) (s.returned q) = s.setProducer p pc := by
  simp [InQueue.commit, setProducer]

theorem Inv.pushStep (hinv : s.Inv conf) (hstep : s.pushStep conf p = some s') : s'.Inv conf := by
  unfold InQueue.pushStep at hstep
  have hok := hinv.push p
  cases hpc : s.producer p with
  | idle => simp [hpc] at hstep
  | lock q v =>
      simp only [hpc] at hstep hok
      obtain ⟨hfree, hs⟩ := Option.ite_none_right_eq_some.mp hstep
      obtain rfl := Option.some.inj hs
      have hret := hinv.ret q
      simp only [pending, hfree] at hret
      have hc : Commits conf s p q (.loadHead q v) (s.sub q) (some p) (s.accepted q) (s.returned q) :=
        ⟨Or.inl hfree, by simp [hpc, PushPc.holds], Or.inr ⟨rfl, rfl⟩, hinv.sub q, rfl,
          List.prefix_refl _, hinv.log q, by simpa [PushPc.pending] using hret, hok⟩
      simpa [InQueue.commit, setProducer] using hinv.commit hc
  | loadHead q v =>
      simp only [hpc] at hstep hok
      obtain rfl := Option.some.inj hstep
      rw [← commit_self s p q]
      exact hinv.commit (hinv.commits_of_holds (by simp [hpc, PushPc.holds]) rfl
        (by simp [hpc, PushPc.pending]) ⟨hok, rfl⟩)
  | loadTail q v head =>
      simp only [hpc] at hstep hok
      obtain ⟨hq, rfl⟩ := hok
      have hholds : (s.producer p).holds = some q := by simp [hpc, PushPc.holds]
      split at hstep
      · obtain rfl := Option.some.inj hstep
        rw [← commit_self s p q]
        exact hinv.commit (hinv.commits_of_holds hholds rfl (by simp [hpc, PushPc.pending]) hq)
      · rename_i hne
        obtain rfl := Option.some.inj hstep
        rw [← commit_self s p q]
        obtain ⟨hhead, htail⟩ := hinv.sub q
        exact hinv.commit (hinv.commits_of_holds hholds rfl (by simp [hpc, PushPc.pending])
          ⟨hq, rfl, room_of_next_ne hhead htail hne⟩)
  | write q v head =>
      simp only [hpc] at hstep hok
      obtain ⟨hq, rfl, hroom⟩ := hok
      obtain rfl := Option.some.inj hstep
      have hholds : (s.producer p).holds = some q := by simp [hpc, PushPc.holds]
      have howner := (hinv.lock q p).mpr hholds
      have hret := hinv.ret q
      simp only [pending, howner, hpc, PushPc.pending] at hret
      obtain ⟨hhead, htail⟩ := hinv.sub q
      set b : Spsc α := { s.sub q with entries := Function.update (s.sub q).entries (s.sub q).head v }
        with hb
      have hstored : b.stored conf = (s.sub q).stored conf := contents_write hhead htail v
      have hc : Commits conf s p q (.storeHead q v (s.sub q).head) b (s.qspin q) (s.accepted q)
          (s.returned q) := by
        refine ⟨Or.inr howner, by simp [hpc, PushPc.holds], Or.inr ⟨howner, rfl⟩, ⟨hhead, htail⟩, rfl,
          by rw [hstored], by rw [hstored]; exact hinv.log q, ?_, ?_⟩
        · simpa [howner, PushPc.pending] using hret
        · simpa [PushPc.Ok, hb] using ⟨hq, hroom⟩
      simpa [InQueue.commit, setProducer, setSub] using hinv.commit hc
  | storeHead q v head =>
      simp only [hpc] at hstep hok
      obtain ⟨hq, rfl, hroom, hentry⟩ := hok
      obtain rfl := Option.some.inj hstep
      have hholds : (s.producer p).holds = some q := by simp [hpc, PushPc.holds]
      have howner := (hinv.lock q p).mpr hholds
      have hret := hinv.ret q
      simp only [pending, howner, hpc, PushPc.pending] at hret
      obtain ⟨hhead, htail⟩ := hinv.sub q
      set b : Spsc α := { s.sub q with head := ((s.sub q).head + 1) % conf.slots } with hb
      have hstored : b.stored conf = (s.sub q).stored conf ++ [v] := by
        rw [← hentry]
        exact contents_advance_head hhead htail hroom
      have hc : Commits conf s p q (.unlock q v true) b (s.qspin q) (s.accepted q ++ [v])
          (s.returned q) := by
        refine ⟨Or.inr howner, by simp [hpc, PushPc.holds], Or.inr ⟨howner, rfl⟩,
          ⟨wrap_lt hhead 1, htail⟩, rfl, by rw [hstored]; exact List.prefix_append _ _, ?_, ?_, hq⟩
        · rw [hstored, ← List.append_assoc, ← hinv.log q]
        · rw [if_pos howner, PushPc.pending, hret, List.append_nil]
      simpa [InQueue.commit, setProducer, setSub] using hinv.commit hc
  | unlock q v ret =>
      simp only [hpc] at hstep hok
      obtain rfl := Option.some.inj hstep
      have hholds : (s.producer p).holds = some q := by simp [hpc, PushPc.holds]
      have howner := (hinv.lock q p).mpr hholds
      have hret := hinv.ret q
      have hpend : (PushPc.unlock q v ret).pending = if ret then [v] else [] := by
        cases ret <;> rfl
      simp only [pending, howner, hpc, hpend] at hret
      have hc : Commits conf s p q .idle (s.sub q) none (s.accepted q)
          (s.returned q ++ if ret then [v] else []) :=
        ⟨Or.inr howner, by simp [hpc, PushPc.holds], Or.inl ⟨rfl, rfl⟩, hinv.sub q, rfl,
          List.prefix_refl _, hinv.log q, by simpa using hret, trivial⟩
      simpa [InQueue.commit, setProducer] using hinv.commit hc

/-- A call of `mpsc_push`. -/
theorem Inv.call {v : α} {q : Nat} (hinv : s.Inv conf) (hidle : s.producer p = .idle)
    (hq : q ≤ conf.nqueues) : (s.setProducer p (.lock q v)).Inv conf := by
  refine ⟨hinv.sub, fun q' p' => ?_, hinv.log, fun q' => ?_, fun p' => ?_, hinv.pop, hinv.current_le⟩
  · have hlock := hinv.lock q' p'
    by_cases hp : p' = p
    · subst hp
      simpa [setProducer, hidle, PushPc.holds] using hlock
    · simpa only [setProducer, Function.update_of_ne hp] using hlock
  · have hret := hinv.ret q'
    simp only [setProducer, pending] at hret ⊢
    rw [hret]
    cases howner : s.qspin q' with
    | none => rfl
    | some p' =>
        have hp : p' ≠ p := by
          rintro rfl
          have := (hinv.lock q' p').mp howner
          simp [hidle, PushPc.holds] at this
        simp only [Function.update_of_ne hp]
  · by_cases hp : p' = p
    · subst hp
      simpa [setProducer, PushPc.Ok] using hq
    · simpa only [setProducer, Function.update_of_ne hp] using hinv.push p'

/-! ### The consumer -/

theorem Inv.setPc {pc : PopPc α} (hinv : s.Inv conf)
    (hok : Consumer.Ok conf s.sub { s.consumer with pc := pc }) : (s.setPc pc).Inv conf :=
  ⟨hinv.sub, hinv.lock, hinv.log, hinv.ret, hinv.push, hok, hinv.current_le⟩

/-- What the end of an iteration has taken in all. -/
theorem nextQueue_value (s : InQueue α) (ret : List α) :
    (s.nextQueue conf ret).delivered ++ (s.nextQueue conf ret).consumer.value =
      s.delivered ++ s.consumer.value ++ ret.map (s.consumer.current, ·) := by
  unfold nextQueue
  simp only
  split <;> simp

/-- The end of an iteration changes the consumer only. -/
theorem nextQueue_frame (conf : InQueueConf) (s : InQueue α) (ret : List α) :
    (s.nextQueue conf ret).sub = s.sub ∧ (s.nextQueue conf ret).qspin = s.qspin
      ∧ (s.nextQueue conf ret).producer = s.producer ∧ (s.nextQueue conf ret).accepted = s.accepted
      ∧ (s.nextQueue conf ret).returned = s.returned := by
  unfold nextQueue
  simp only
  split <;> exact ⟨rfl, rfl, rfl, rfl, rfl⟩

theorem nextQueue_ok (ret : List α) (hbusy : s.consumer.Busy conf) (hcur : s.current ≤ conf.nqueues) :
    (s.nextQueue conf ret).consumer.Ok conf (s.nextQueue conf ret).sub
      ∧ (s.nextQueue conf ret).current ≤ conf.nqueues := by
  have hnext : (s.consumer.current + 1) % (conf.nqueues + 1) ≤ conf.nqueues :=
    Nat.le_of_lt_succ (Nat.mod_lt _ (Nat.succ_pos _))
  unfold nextQueue
  simp only
  split
  · rename_i hmore
    exact ⟨⟨hnext, hbusy.start_le, hmore.2⟩, hcur⟩
  · exact ⟨rfl, hnext⟩

theorem filter_tag (q : Nat) (l : List α) :
    ((l.map (q, ·)).filter (·.1 = q)).map (·.2) = l := by
  rw [List.filter_eq_self.mpr (by simp), List.map_map]
  exact List.map_id l

theorem filter_tag_of_ne {q q' : Nat} (hne : q ≠ q') (l : List α) :
    ((l.map (q, ·)).filter (·.1 = q')).map (·.2) = [] := by
  rw [List.filter_eq_nil_iff.mpr (by simp [hne]), List.map_nil]

/-- The tail of the current subqueue moves past the values that are taken. -/
theorem Inv.nextQueue {k : Nat} (hinv : s.Inv conf) (hbusy : s.consumer.Busy conf)
    (hk : k ≤ ((s.sub s.consumer.current).stored conf).length) :
    ((s.setSub s.consumer.current { s.sub s.consumer.current with
        tail := ((s.sub s.consumer.current).tail + k) % conf.slots }).nextQueue conf
      (((s.sub s.consumer.current).stored conf).take k)).Inv conf := by
  set q := s.consumer.current with hq
  obtain ⟨hhead, htail⟩ := hinv.sub q
  set s₁ := s.setSub q { s.sub q with tail := ((s.sub q).tail + k) % conf.slots } with hs₁
  have hlen : k ≤ distance conf.slots (s.sub q).head (s.sub q).tail := by
    simpa [Spsc.stored] using hk
  have hstored : (s₁.sub q).stored conf = ((s.sub q).stored conf).drop k := by
    simp only [hs₁, setSub, Function.update_self]
    exact contents_advance_tail hhead htail hlen
  have hother : ∀ q', q' ≠ q → s₁.sub q' = s.sub q' := fun q' hne => by
    simp only [hs₁, setSub, Function.update_of_ne hne]
  obtain ⟨hsub, hspin, hprod, hacc, hret⟩ := nextQueue_frame conf s₁
    (((s.sub q).stored conf).take k)
  have hbusy₁ : s₁.consumer.Busy conf := hbusy
  obtain ⟨hok, hcur⟩ := nextQueue_ok (((s.sub q).stored conf).take k) hbusy₁ hinv.current_le
  refine ⟨fun q' => ?_, ?_, fun q' => ?_, fun q' => ?_, fun p => ?_, hok, hcur⟩
  · rw [hsub]
    by_cases hne : q' = q
    · subst hne
      simpa [hs₁, setSub] using ⟨hhead, wrap_lt htail k⟩
    · rw [hother q' hne]
      exact hinv.sub q'
  · rw [hspin, hprod]
    exact hinv.lock
  · have hlog := hinv.log q'
    rw [hacc, hsub, taken, nextQueue_value, List.filter_append, List.map_append]
    show s.accepted q' = s.taken q' ++ _ ++ _
    rw [hlog, List.append_assoc, show s₁.consumer.current = q from rfl]
    by_cases hne : q' = q
    · subst hne
      rw [hstored, filter_tag, List.take_append_drop]
    · rw [hother q' hne, filter_tag_of_ne (Ne.symm hne), List.nil_append]
  · rw [hacc, hret, pending, hspin, hprod]
    exact hinv.ret q'
  · rw [hprod, hsub]
    refine pushOk_congr (hinv.push p) fun q' hholds => ?_
    by_cases hne : q' = q
    · subst hne
      have hdist := distance_advance_tail hhead htail hlen
      simp only [hs₁, setSub, Function.update_self, true_and, and_true]
      omega
    · rw [hother q' hne]
      exact ⟨rfl, Nat.le_refl _, rfl⟩

/-- The values between the tail and a head that was seen earlier. -/
theorem remaining_eq {head tail : Nat} (hne : head ≠ tail) :
    (if head > tail then head - tail else conf.slots - tail + head) = distance conf.slots head tail := by
  unfold distance
  split <;> split <;> omega

/-- An iteration that takes nothing leaves its subqueue as it was. -/
theorem setSub_zero (hinv : s.Inv conf) :
    s.setSub q { s.sub q with tail := ((s.sub q).tail + 0) % conf.slots } = s := by
  rw [Nat.add_zero, Nat.mod_eq_of_lt (hinv.sub q).tail_lt, setSub, Function.update_eq_self]

theorem Inv.popStep (hinv : s.Inv conf) (hstep : s.popStep conf = some s') : s'.Inv conf := by
  unfold InQueue.popStep at hstep
  have hok := hinv.pop
  obtain ⟨hhead, htail⟩ := hinv.sub s.consumer.current
  cases hpc : s.consumer.pc with
  | idle => simp [hpc] at hstep
  | loadHead =>
      simp only [hpc] at hstep
      simp only [Consumer.Ok, hpc] at hok
      obtain rfl := Option.some.inj hstep
      refine hinv.setPc ⟨⟨hok.1, hok.2, hok.3⟩, hhead, ?_⟩
      simp [Spsc.stored]
  | loadTail head =>
      simp only [hpc] at hstep
      simp only [Consumer.Ok, hpc] at hok
      obtain ⟨hbusy, hlt, hdist⟩ := hok
      split at hstep
      · obtain rfl := Option.some.inj hstep
        have hnext := hinv.nextQueue hbusy (Nat.zero_le _)
        rwa [setSub_zero hinv, List.take_zero] at hnext
      · rename_i hne
        obtain rfl := Option.some.inj hstep
        rw [remaining_eq hne]
        have htotal := hbusy.total_lt
        refine hinv.setPc ⟨⟨hbusy.1, hbusy.2, hbusy.3⟩, ?_, ?_, ?_, ?_⟩
        · rw [List.length_nil, Nat.add_zero, Nat.mod_eq_of_lt htail]
        · simp only [List.length_nil, Nat.zero_add]
          exact (Nat.min_le_right _ _).trans hdist
        · rw [List.length_nil, List.take_zero]
        · simp only [List.length_nil, Nat.add_zero]
          omega
  | copy tail left copied =>
      simp only [Consumer.Ok, hpc] at hok
      obtain ⟨hbusy, heq, hleft, hcopied, hcnt⟩ := hok
      cases left with
      | zero =>
          simp only [hpc] at hstep
          obtain rfl := Option.some.inj hstep
          rw [Nat.add_zero] at hleft
          have hnext := hinv.nextQueue hbusy hleft
          rwa [← hcopied, ← heq] at hnext
      | succ left =>
          simp only [hpc] at hstep
          obtain rfl := Option.some.inj hstep
          have hlt : copied.length < distance conf.slots (s.sub s.consumer.current).head
              (s.sub s.consumer.current).tail := by
            simp only [Spsc.stored, length_contents] at hleft
            omega
          refine hinv.setPc ⟨⟨hbusy.1, hbusy.2, hbusy.3⟩, ?_, ?_, ?_, ?_⟩
          · rw [heq, Nat.mod_add_mod, List.length_append, List.length_singleton, Nat.add_assoc]
          · rw [List.length_append, List.length_singleton]
            show _ ≤ ((s.sub s.consumer.current).stored conf).length
            omega
          · rw [List.length_append, List.length_singleton, Spsc.stored, take_succ_contents hlt, heq]
            exact congrArg (· ++ _) hcopied
          · rw [List.length_append, List.length_singleton]
            show s.consumer.value.length + _ + _ ≤ s.consumer.cnt
            omega

/-! ### Every run -/

theorem Inv.step {op : InOp α} (hinv : s.Inv conf) (hstep : s.step conf op = some s') :
    s'.Inv conf := by
  cases op with
  | push p cpu v =>
      simp only [InQueue.step] at hstep
      cases hpc : s.producer p with
      | idle =>
          simp only [hpc] at hstep
          obtain ⟨hcpu, hs⟩ := Option.ite_none_right_eq_some.mp hstep
          obtain rfl := Option.some.inj hs
          exact hinv.call hpc (conf.index_le hcpu)
      | _ => simp [hpc] at hstep
  | producer p => exact hinv.pushStep hstep
  | pop cnt =>
      simp only [InQueue.step] at hstep
      cases hpc : s.consumer.pc with
      | idle =>
          simp only [hpc] at hstep
          obtain ⟨hcnt, hs⟩ := Option.ite_none_right_eq_some.mp hstep
          obtain rfl := Option.some.inj hs
          have hvalue : s.consumer.value = [] := by
            simpa [Consumer.Ok, hpc] using hinv.pop
          refine ⟨hinv.sub, hinv.lock, fun q => ?_, hinv.ret, hinv.push,
            ⟨hinv.current_le, hinv.current_le, hcnt⟩, hinv.current_le⟩
          have hlog := hinv.log q
          rwa [taken, hvalue] at hlog
      | _ => simp [hpc] at hstep
  | consumer => exact hinv.popStep hstep

theorem inv_start (conf : InQueueConf) (entries : Nat → Nat → α) : (start entries).Inv conf := by
  have hslots := conf.slots_ge
  refine ⟨fun q => ⟨?_, ?_⟩, fun q p => ?_, fun q => ?_, fun q => rfl, fun p => trivial, rfl,
    Nat.zero_le _⟩
  · show 0 < conf.slots
    omega
  · show 0 < conf.slots
    omega
  · simp [start, PushPc.holds]
  · exact (contents_self conf.slots (entries q) 0).symm

theorem inv_run {entries : Nat → Nat → α} {ops : List (InOp α)}
    (hrun : run (step conf) (start entries) ops = some s) : s.Inv conf :=
  invariant (fun _ _ _ hstep hinv => hinv.step hstep) hrun (inv_start conf entries)

/-! ## A batch without producers -/

/-- The consumer takes `k` steps. -/
abbrev steps (conf : InQueueConf) (s : InQueue α) (k : Nat) : Option (InQueue α) :=
  run (step conf) s (List.replicate k .consumer)

theorem steps_succ (h : s.popStep conf = some s') (k : Nat) :
    steps conf s (k + 1) = steps conf s' k := by
  rw [steps, List.replicate_succ, run, show s.step conf .consumer = some s' from h]

theorem steps_add {k : Nat} (h : steps conf s k = some s') (j : Nat) :
    steps conf s (k + j) = steps conf s' j := by
  rw [steps, List.replicate_add]
  exact run_append _ h

/-- The state after an iteration that takes `k` values. -/
def takeFrom (conf : InQueueConf) (s : InQueue α) (k : Nat) : InQueue α :=
  (s.setSub s.consumer.current { s.sub s.consumer.current with
      tail := ((s.sub s.consumer.current).tail + k) % conf.slots }).nextQueue conf
    (((s.sub s.consumer.current).stored conf).take k)

/-- The copies of a batch, and the store of the tail after them. -/
theorem steps_copy {left : Nat} :
    ∀ {s : InQueue α} {tail : Nat} {copied : List α}, s.Inv conf →
      s.consumer.pc = .copy tail left copied →
      steps conf s (left + 1) = some (s.takeFrom conf (copied.length + left)) := by
  induction left with
  | zero =>
      intro s tail copied hinv hpc
      have hok := hinv.pop
      simp only [Consumer.Ok, hpc] at hok
      obtain ⟨-, heq, -, hcopied, -⟩ := hok
      have hstep : s.popStep conf = some (s.takeFrom conf copied.length) := by
        rw [takeFrom, ← hcopied, ← heq]
        simp only [InQueue.popStep, hpc]
      exact steps_succ hstep 0
  | succ left ih =>
      intro s tail copied hinv hpc
      have hstep : s.popStep conf = some (s.setPc (.copy ((tail + 1) % conf.slots) left
          (copied ++ [(s.sub s.consumer.current).entries tail]))) := by
        simp only [InQueue.popStep, hpc]
      rw [steps_succ hstep, ih (hinv.popStep hstep) rfl, List.length_append, List.length_singleton,
        Nat.add_assoc, Nat.add_comm 1 left]
      rfl

/-- One iteration takes what fits from the current subqueue. -/
theorem steps_iteration (hinv : s.Inv conf) (hpc : s.consumer.pc = .loadHead) :
    ∃ k, steps conf s k = some (s.takeFrom conf (min (s.consumer.cnt - s.consumer.value.length)
      ((s.sub s.consumer.current).stored conf).length)) := by
  set b := s.sub s.consumer.current with hb
  have hload : s.popStep conf = some (s.setPc (.loadTail b.head)) := by
    simp only [InQueue.popStep, hpc, hb]
  obtain ⟨hhead, htail⟩ := hinv.sub s.consumer.current
  have hlen : (b.stored conf).length = distance conf.slots b.head b.tail := length_contents
  by_cases heq : b.head = b.tail
  · have hempty : (b.stored conf).length = 0 := by
      rw [hlen, heq, distance_self]
    have hnext : (s.setPc (.loadTail b.head)).popStep conf = some (s.takeFrom conf 0) := by
      rw [takeFrom, setSub_zero hinv, List.take_zero]
      simp only [InQueue.popStep, setPc, ← hb, heq, if_true]
      rfl
    refine ⟨2, ?_⟩
    rw [hempty, Nat.min_zero, steps_succ hload, steps_succ hnext]
    rfl
  · set m := min (s.consumer.cnt - s.consumer.value.length) (b.stored conf).length with hm
    have hinv₁ := hinv.popStep hload
    have hnext : (s.setPc (.loadTail b.head)).popStep conf =
        some ((s.setPc (.loadTail b.head)).setPc (.copy b.tail m [])) := by
      rw [hm, hlen, ← remaining_eq heq]
      simp only [InQueue.popStep, setPc, ← hb, heq, if_false]
    refine ⟨m + 1 + 1 + 1, ?_⟩
    rw [steps_succ hload, steps_succ hnext, steps_copy (hinv₁.popStep hnext) rfl, List.length_nil,
      Nat.zero_add]
    rfl

/-- The values that an iteration adds to the batch. -/
def batchOf (conf : InQueueConf) (s : InQueue α) (k : Nat) : List (Nat × α) :=
  (((s.sub s.consumer.current).stored conf).take k).map (s.consumer.current, ·)

theorem length_batchOf {k : Nat} (hk : k ≤ ((s.sub s.consumer.current).stored conf).length) :
    (s.batchOf conf k).length = k := by
  rw [batchOf, List.length_map, List.length_take, Nat.min_eq_left hk]

theorem nextQueue_last {ret : List α}
    (hlast : ¬ ((s.consumer.current + 1) % (conf.nqueues + 1) ≠ s.consumer.start
      ∧ (s.consumer.value ++ ret.map (s.consumer.current, ·)).length < s.consumer.cnt)) :
    s.nextQueue conf ret = { s with
      consumer := ⟨.idle, s.consumer.cnt, s.consumer.start,
        (s.consumer.current + 1) % (conf.nqueues + 1), []⟩
      current := (s.consumer.current + 1) % (conf.nqueues + 1)
      delivered := s.delivered ++ (s.consumer.value ++ ret.map (s.consumer.current, ·)) } :=
  if_neg hlast

theorem nextQueue_next {ret : List α}
    (hnext : (s.consumer.current + 1) % (conf.nqueues + 1) ≠ s.consumer.start
      ∧ (s.consumer.value ++ ret.map (s.consumer.current, ·)).length < s.consumer.cnt) :
    s.nextQueue conf ret = { s with
      consumer := ⟨.loadHead, s.consumer.cnt, s.consumer.start,
        (s.consumer.current + 1) % (conf.nqueues + 1),
        s.consumer.value ++ ret.map (s.consumer.current, ·)⟩ } :=
  if_pos hnext

/-- The last iteration of a batch. -/
theorem takeFrom_last {k : Nat} (hk : k ≤ ((s.sub s.consumer.current).stored conf).length)
    (hlast : ¬ ((s.consumer.current + 1) % (conf.nqueues + 1) ≠ s.consumer.start
      ∧ s.consumer.value.length + k < s.consumer.cnt)) :
    (s.takeFrom conf k).consumer.pc = .idle
      ∧ (s.takeFrom conf k).delivered = s.delivered ++ s.consumer.value ++ s.batchOf conf k := by
  rw [← length_batchOf hk, ← List.length_append] at hlast
  have heq := nextQueue_last (s := s.setSub s.consumer.current { s.sub s.consumer.current with
    tail := ((s.sub s.consumer.current).tail + k) % conf.slots }) hlast
  exact ⟨congrArg (·.consumer.pc) heq,
    (congrArg (·.delivered) heq).trans (List.append_assoc ..).symm⟩

/-- An iteration after which the batch goes on. -/
theorem takeFrom_next {k : Nat} (hk : k ≤ ((s.sub s.consumer.current).stored conf).length)
    (hnext : (s.consumer.current + 1) % (conf.nqueues + 1) ≠ s.consumer.start
      ∧ s.consumer.value.length + k < s.consumer.cnt) :
    (s.takeFrom conf k).consumer = ⟨.loadHead, s.consumer.cnt, s.consumer.start,
        (s.consumer.current + 1) % (conf.nqueues + 1), s.consumer.value ++ s.batchOf conf k⟩
      ∧ (s.takeFrom conf k).delivered = s.delivered
      ∧ ∀ q, q ≠ s.consumer.current → (s.takeFrom conf k).sub q = s.sub q := by
  rw [← length_batchOf hk, ← List.length_append] at hnext
  have heq := nextQueue_next (s := s.setSub s.consumer.current { s.sub s.consumer.current with
    tail := ((s.sub s.consumer.current).tail + k) % conf.slots }) hnext
  refine ⟨congrArg (·.consumer) heq, congrArg (·.delivered) heq, fun q hq => ?_⟩
  exact (congrArg (·.sub q) heq).trans (Function.update_of_ne hq ..)

/-- The number of values in the `i`-th subqueue from where the batch has
started. -/
def storedAt (conf : InQueueConf) (s : InQueue α) (i : Nat) : Nat :=
  ((s.sub ((s.consumer.start + i) % (conf.nqueues + 1))).stored conf).length

/-- The rest of a batch, with `r` subqueues to go after the current one. -/
theorem steps_loop {r : Nat} :
    ∀ {s : InQueue α} {j : Nat}, s.Inv conf → s.consumer.pc = .loadHead →
      s.consumer.current = (s.consumer.start + j) % (conf.nqueues + 1) → j + r = conf.nqueues →
      ∃ k s' batch, steps conf s k = some s' ∧ s'.consumer.pc = .idle
        ∧ s'.delivered = s.delivered ++ s.consumer.value ++ batch
        ∧ batch.length = min (s.consumer.cnt - s.consumer.value.length)
          (∑ i ∈ Finset.range (r + 1), s.storedAt conf (j + i)) := by
  induction r with
  | zero =>
      intro s j hinv hpc hcur hj
      obtain ⟨k, hk⟩ := steps_iteration hinv hpc
      have hbusy : s.consumer.Busy conf := by simpa [Consumer.Ok, hpc] using hinv.pop
      have hback : (s.consumer.current + 1) % (conf.nqueues + 1) = s.consumer.start := by
        rw [hcur, Nat.mod_add_mod, Nat.add_assoc, show j + 1 = conf.nqueues + 1 by omega,
          Nat.add_mod_right, Nat.mod_eq_of_lt (Nat.lt_succ_of_le hbusy.start_le)]
      obtain ⟨hidle, hdel⟩ := takeFrom_last (Nat.min_le_right
        (s.consumer.cnt - s.consumer.value.length) _) fun h => h.1 hback
      refine ⟨k, _, _, hk, hidle, hdel, ?_⟩
      rw [length_batchOf (Nat.min_le_right _ _), Finset.sum_range_one, storedAt, Nat.add_zero, ← hcur]
  | succ r ih =>
      intro s j hinv hpc hcur hj
      obtain ⟨k, hk⟩ := steps_iteration hinv hpc
      have hbusy : s.consumer.Busy conf := by simpa [Consumer.Ok, hpc] using hinv.pop
      have hstart : s.consumer.start < conf.nqueues + 1 := Nat.lt_succ_of_le hbusy.start_le
      have htotal := hbusy.total_lt
      set len := ((s.sub s.consumer.current).stored conf).length with hlen
      set m := min (s.consumer.cnt - s.consumer.value.length) len with hm
      have hmle : m ≤ len := Nat.min_le_right _ _
      have hsum : ∑ i ∈ Finset.range (r + 1 + 1), s.storedAt conf (j + i) =
          ∑ i ∈ Finset.range (r + 1), s.storedAt conf (j + 1 + i) + len := by
        rw [Finset.sum_range_succ', Nat.add_zero, hlen, hcur]
        simp only [Nat.add_assoc, Nat.add_comm 1]
        rfl
      have hnext : (s.consumer.current + 1) % (conf.nqueues + 1) =
          (s.consumer.start + (j + 1)) % (conf.nqueues + 1) := by
        rw [hcur, Nat.mod_add_mod, Nat.add_assoc]
      have hnotstart : (s.consumer.current + 1) % (conf.nqueues + 1) ≠ s.consumer.start := by
        intro h
        have hzero : (s.consumer.start + 0) % (conf.nqueues + 1) = s.consumer.start := by
          rw [Nat.add_zero, Nat.mod_eq_of_lt hstart]
        have := wrap_inj hstart (by omega) (by omega) ((hnext.symm.trans h).trans hzero.symm)
        omega
      by_cases hmore : s.consumer.value.length + m < s.consumer.cnt
      · -- the subqueue is empty now, and the ones to come are as they were
        obtain ⟨hcons, hdel, hother⟩ := takeFrom_next hmle ⟨hnotstart, hmore⟩
        set s₁ := s.takeFrom conf m with hs₁
        have hinv₁ : s₁.Inv conf := hinv.nextQueue hbusy hmle
        have hlater : ∀ i ∈ Finset.range (r + 1),
            s₁.storedAt conf (j + 1 + i) = s.storedAt conf (j + 1 + i) := by
          intro i hi
          rw [Finset.mem_range] at hi
          rw [storedAt, storedAt, hcons]
          rw [hother]
          intro heq
          rw [hcur] at heq
          have := wrap_inj hstart (by omega) (by omega) heq
          omega
        obtain ⟨k', s', batch, hk', hidle, hdel', hlen'⟩ := ih hinv₁ (by rw [hcons])
          (by rw [hcons]; exact hnext) (by omega)
        refine ⟨k + k', s', s.batchOf conf m ++ batch, (steps_add hk k').trans hk', hidle, ?_, ?_⟩
        · rw [hdel', hdel, hcons, List.append_assoc, List.append_assoc, List.append_assoc]
        · rw [Finset.sum_congr rfl hlater, hcons, List.length_append, length_batchOf hmle] at hlen'
          rw [List.length_append, length_batchOf hmle, hlen', hsum]
          simp only
          omega
      · obtain ⟨hidle, hdel⟩ := takeFrom_last hmle fun h => hmore h.2
        refine ⟨k, _, _, hk, hidle, hdel, ?_⟩
        rw [length_batchOf hmle, hsum]
        omega

/-- All values in the queue. -/
def totalStored (conf : InQueueConf) (s : InQueue α) : Nat :=
  ∑ q ∈ Finset.range (conf.nqueues + 1), ((s.sub q).stored conf).length

/-- A batch visits every subqueue once. -/
theorem sum_storedAt (hstart : s.consumer.start ≤ conf.nqueues) :
    ∑ i ∈ Finset.range (conf.nqueues + 1), s.storedAt conf (0 + i) = s.totalStored conf := by
  have hlt : s.consumer.start < conf.nqueues + 1 := Nat.lt_succ_of_le hstart
  have hinj : Set.InjOn (fun i => (s.consumer.start + i) % (conf.nqueues + 1))
      (Finset.range (conf.nqueues + 1)) := by
    intro i hi j hj h
    exact wrap_inj hlt (Finset.mem_range.mp hi) (Finset.mem_range.mp hj) h
  have himage : (Finset.range (conf.nqueues + 1)).image
      (fun i => (s.consumer.start + i) % (conf.nqueues + 1)) = Finset.range (conf.nqueues + 1) := by
    refine Finset.eq_of_subset_of_card_le (fun q hq => ?_) ?_
    · obtain ⟨i, -, rfl⟩ := Finset.mem_image.mp hq
      exact Finset.mem_range.mpr (Nat.mod_lt _ (Nat.succ_pos _))
    · rw [Finset.card_image_of_injOn hinj]
  unfold totalStored
  conv_rhs => rw [← himage]
  rw [Finset.sum_image hinj]
  simp only [Nat.zero_add, storedAt]

/-- A batch that no producer disturbs takes as many values as it may. -/
theorem pop_alone {cnt : Nat} (hinv : s.Inv conf) (hidle : s.consumer.pc = .idle) (hcnt : 0 < cnt) :
    ∃ k s' batch, run (step conf) s (.pop cnt :: List.replicate k .consumer) = some s'
      ∧ s'.consumer.pc = .idle ∧ s'.delivered = s.delivered ++ batch
      ∧ batch.length = min cnt (s.totalStored conf) := by
  have hstep : s.step conf (.pop cnt) =
      some { s with consumer := ⟨.loadHead, cnt, s.current, s.current, []⟩ } := by
    simp only [InQueue.step, hidle, if_pos hcnt]
  have hstart := hinv.current_le
  obtain ⟨k, s', batch, hk, hidle', hdel, hlen⟩ := steps_loop (j := 0) (hinv.step hstep) rfl
    (by rw [Nat.add_zero, Nat.mod_eq_of_lt (Nat.lt_succ_of_le hstart)]) (Nat.zero_add _)
  refine ⟨k, s', batch, ?_, hidle', ?_, ?_⟩
  · rw [run, hstep]
    exact hk
  · rw [hdel, List.append_nil]
  · rw [hlen, sum_storedAt hstart]
    rfl

/-! ## The queue as a whole -/

/-- The input queue is a lossless set of FIFOs, in every state that any
interleaving of producers and consumer reaches. `mpsc_push` chooses a
subqueue that exists and its assertion holds. The values accepted by a
subqueue are those taken from it followed by those stored in it, in one
order; they are the values whose push has returned 1, and at most one
more whose producer is about to return. A subqueue stores at most
`slots - 1` values. And a batch that runs without producers ends, and
takes the requested number of values or all of them. -/
theorem lossless_fifos {entries : Nat → Nat → α} {ops : List (InOp α)}
    (hrun : run (step conf) (start entries) ops = some s) :
    (∀ cpu : Int, cpu < conf.cpus → conf.index cpu ≤ conf.nqueues ∧ conf.PushAssert cpu)
    ∧ (∀ q, s.accepted q = s.taken q ++ (s.sub q).stored conf
      ∧ s.accepted q = s.returned q ++ s.pending q)
    ∧ (∀ q, ((s.sub q).stored conf).length ≤ conf.slots - 1)
    ∧ (s.consumer.pc = .idle → ∀ cnt, 0 < cnt →
      ∃ k s' batch, run (step conf) s (.pop cnt :: List.replicate k .consumer) = some s'
        ∧ s'.consumer.pc = .idle ∧ s'.delivered = s.delivered ++ batch
        ∧ batch.length = min cnt (s.totalStored conf)) := by
  have hinv := inv_run hrun
  refine ⟨fun cpu hcpu => ⟨conf.index_le hcpu, conf.pushAssert hcpu⟩,
    fun q => ⟨hinv.log q, hinv.ret q⟩, fun q => ?_, fun hidle cnt hcnt => pop_alone hinv hidle hcnt⟩
  obtain ⟨hhead, htail⟩ := hinv.sub q
  have hlen : ((s.sub q).stored conf).length = distance conf.slots (s.sub q).head (s.sub q).tail :=
    length_contents
  have := distance_lt hhead htail
  omega

/-- Three CPUs in two subqueues of two slots, and one for the others. -/
def smallConf : InQueueConf := ⟨3, 2, 2, by decide, by decide, by decide, by decide, by decide⟩

/-- CPU 1 pushes 7 and CPU 2 pushes 8, and a batch takes both. -/
def smallOps : List (InOp Nat) :=
  [.push 0 1 7, .push 1 2 8] ++ List.replicate 6 (.producer 0) ++ List.replicate 6 (.producer 1)
    ++ .pop 5 :: List.replicate 10 .consumer

theorem lossless_fifos_small :
    ∃ s, run (step smallConf) (start fun _ _ => 0) smallOps = some s
      ∧ s.delivered = [(0, 7), (1, 8)] ∧ s.returned 0 = [7] ∧ s.consumer.pc = .idle
      ∧ s.accepted 0 = s.taken 0 ++ (s.sub 0).stored smallConf := by
  have hsome : ((run (step smallConf) (start fun _ _ => 0) smallOps).map fun s =>
      (s.delivered, s.returned 0, s.consumer.pc matches .idle)) = some ([(0, 7), (1, 8)], [7], true) := by
    decide +kernel
  obtain ⟨s, hrun, hs⟩ := Option.map_eq_some_iff.mp hsome
  obtain ⟨hdel, hs⟩ := Prod.mk.inj hs
  obtain ⟨hret, hidle⟩ := Prod.mk.inj hs
  refine ⟨s, hrun, hdel, hret, ?_, ((lossless_fifos hrun).2.1 0).1⟩
  cases hpc : s.consumer.pc with
  | idle => rfl
  | _ => simp [hpc] at hidle

end InQueue

end Nosv
