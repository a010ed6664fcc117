import Nosv.Task

/-!
# The queue of creation events

`generic/ringbuffer.h` and `hardware/eventqueue.h`: the queue through which
a thread of another process asks the delegate of this one for a worker.
The buffer has room for two events per CPU, and a push to a full buffer
drops the event: nobody looks at the result.

What the buffer holds is told by `RingBuffer.toList`, in the order in
which it will be pulled.
-/

namespace Nosv

/-- A `ring_buffer_t`; `buffer` is what the slots hold. -/
structure RingBuffer (α : Type*) where
  head : Nat
  length : Nat
  totalElements : Nat
  buffer : Nat → α
  head_lt : head < totalElements
  length_le : length ≤ totalElements

namespace RingBuffer

variable {α : Type*}

def toList (rb : RingBuffer α) : List α :=
  (List.range rb.length).map fun i => rb.buffer ((rb.head + i) % rb.totalElements)

@[simp]
theorem length_toList (rb : RingBuffer α) : rb.toList.length = rb.length := by
  simp [toList]

end RingBuffer

section Operations

variable {α : Type*}

def ringBufferInit (n : Nat) (hn : 0 < n) (buffer : Nat → α) : RingBuffer α where
  head := 0
  length := 0
  totalElements := n
  buffer := buffer
  head_lt := hn
  length_le := Nat.zero_le n

def ringBufferFull (rb : RingBuffer α) : Bool := rb.length = rb.totalElements

theorem ringBufferFull_iff {rb : RingBuffer α} : ringBufferFull rb = true ↔ rb.length = rb.totalElements :=
  decide_eq_true_iff

/-- `ring_buffer_push`: its result, and the buffer. -/
def ringBufferPush (rb : RingBuffer α) (elem : α) : Bool × RingBuffer α :=
  if h : ringBufferFull rb = true then (false, rb)
  else
    let next := (rb.head + rb.length) % rb.totalElements
    (true, { rb with
      buffer := Function.update rb.buffer next elem
      length := rb.length + 1
      length_le := Nat.lt_of_le_of_ne rb.length_le fun hfull => h (ringBufferFull_iff.mpr hfull) })

def ringBufferEmpty (rb : RingBuffer α) : Bool := rb.length = 0

theorem ringBufferEmpty_iff {rb : RingBuffer α} : ringBufferEmpty rb = true ↔ rb.length = 0 :=
  decide_eq_true_iff

def ringBufferFront (rb : RingBuffer α) : Option α :=
  if ringBufferEmpty rb = true then none else some (rb.buffer rb.head)

def ringBufferPop (rb : RingBuffer α) : RingBuffer α :=
  if ringBufferEmpty rb = true then rb
  else
    { rb with
      head := (rb.head + 1) % rb.totalElements
      length := rb.length - 1
      head_lt := Nat.mod_lt _ (by have := rb.head_lt; omega)
      length_le := by have := rb.length_le; omega }

/-- `ring_buffer_pull`: the element copied out, if there is one. -/
def ringBufferPull (rb : RingBuffer α) : Option α × RingBuffer α :=
  match ringBufferFront rb with
  | none => (none, rb)
  | some elem => (some elem, ringBufferPop rb)

end Operations

/-! ## The buffer as a list -/

section Lists

variable {α : Type*} {rb : RingBuffer α}

@[simp]
theorem toList_ringBufferInit (n : Nat) (hn : 0 < n) (buffer : Nat → α) :
    (ringBufferInit n hn buffer).toList = [] := rfl

theorem ringBufferPush_full (elem : α) (hfull : rb.length = rb.totalElements) :
    ringBufferPush rb elem = (false, rb) := dif_pos (ringBufferFull_iff.mpr hfull)

/-- The slots in use are distinct from the one the next push writes. -/
theorem RingBuffer.slot_ne {i : Nat} (hi : i < rb.length) (hroom : rb.length < rb.totalElements) :
    (rb.head + i) % rb.totalElements ≠ (rb.head + rb.length) % rb.totalElements := by
  intro heq
  have hmod := Nat.sub_mod_eq_zero_of_mod_eq heq.symm
  rw [show rb.head + rb.length - (rb.head + i) = rb.length - i by omega,
    Nat.mod_eq_of_lt (by omega)] at hmod
  omega

theorem ringBufferPush_room (elem : α) (hroom : rb.length < rb.totalElements) :
    (ringBufferPush rb elem).1 = true
      ∧ (ringBufferPush rb elem).2.toList = rb.toList ++ [elem]
      ∧ (ringBufferPush rb elem).2.totalElements = rb.totalElements := by
  unfold ringBufferPush
  rw [dif_neg fun hfull => Nat.ne_of_lt hroom (ringBufferFull_iff.mp hfull)]
  refine ⟨rfl, ?_, rfl⟩
  simp only [RingBuffer.toList, List.range_succ, List.map_append, List.map_cons, List.map_nil,
    Function.update_self]
  congr 1
  refine List.map_congr_left fun i hi => ?_
  exact Function.update_of_ne (RingBuffer.slot_ne (List.mem_range.mp hi) hroom) _ _

theorem ringBufferPull_nil (hnil : rb.toList = []) : ringBufferPull rb = (none, rb) := by
  have hzero : rb.length = 0 := by rw [← rb.length_toList, hnil]; rfl
  rw [ringBufferPull, ringBufferFront, if_pos (ringBufferEmpty_iff.mpr hzero)]

theorem ringBufferPull_cons {elem : α} {rest : List α} (hcons : rb.toList = elem :: rest) :
    (ringBufferPull rb).1 = some elem ∧ (ringBufferPull rb).2.toList = rest
      ∧ (ringBufferPull rb).2.totalElements = rb.totalElements := by
  have hlen : rb.length = rest.length + 1 := by rw [← rb.length_toList, hcons]; rfl
  have hne : ¬ ringBufferEmpty rb = true := fun hempty => by
    have := ringBufferEmpty_iff.mp hempty
    omega
  have hsplit : rb.toList = rb.buffer rb.head :: (ringBufferPop rb).toList := by
    simp only [RingBuffer.toList, ringBufferPop, if_neg hne]
    obtain ⟨n, hn⟩ := Nat.exists_eq_succ_of_ne_zero (fun hzero => hne (ringBufferEmpty_iff.mpr hzero))
    simp only [hn, List.range_succ_eq_map, List.map_cons, List.map_map, Nat.succ_sub_one,
      Nat.add_zero, Nat.mod_eq_of_lt rb.head_lt]
    congr 1
    refine List.map_congr_left fun i _ => ?_
    simp only [Function.comp_apply, Nat.succ_eq_add_one, Nat.mod_add_mod]
    congr 2
    omega
  rw [hcons] at hsplit
  obtain ⟨hhead, htail⟩ := List.cons.inj hsplit
  simp only [ringBufferPull, ringBufferFront, if_neg hne]
  refine ⟨by rw [hhead], htail.symm, ?_⟩
  simp [ringBufferPop, hne]

end Lists

/-! ## Events -/

/-- A `creation_event_t`; the handle is empty in `none`. -/
inductive CreationEvent where
  | creation (cpu : Nat) (handle : Option TaskId)
  | shutdown
  deriving DecidableEq, Repr

abbrev EventQueue := RingBuffer CreationEvent

/-- `event_queue_init`. -/
def eventQueueInit (cpus : Nat) (hcpus : 0 < cpus) : EventQueue :=
  ringBufferInit (cpus * 2) (by omega) fun _ => .shutdown

/-- `event_queue_put`: the result that the callers ignore, and the queue. -/
def eventQueuePut (queue : EventQueue) (event : CreationEvent) : Bool × EventQueue :=
  ringBufferPush queue event

/-- `event_queue_pull`, which waits while there is no event. -/
def eventQueuePull (queue : EventQueue) : Option (CreationEvent × EventQueue) :=
  match ringBufferPull queue with
  | (none, _) => none
  | (some event, rest) => some (event, rest)

end Nosv
