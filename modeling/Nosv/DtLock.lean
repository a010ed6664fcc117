import Mathlib.Data.Fintype.Basic
import Mathlib.Logic.Function.Basic
import Nosv.Lib.Run

/-!
# The delegation lock

Three ways to the lock share the counter `head` and the queue of slots
`waitqueue`: `dtlock_try_lock`, `dtlock_lock` and `dtlock_lock_or_delegate`.
A thread that delegates registers its CPU next to its ticket, so that who
holds the lock may move it to the second queue, where it waits for an
answer in `items` instead of the lock.

A step of a thread is one atomic access, with the plain accesses that follow
it; a spin is one step, which is possible when the loop ends. Who holds the
lock may do what the functions for its holder do, in any order. Tickets do
not overflow here; the counters of the signals do.

What has happened is kept along: the order of the tickets, and how far the
request of each CPU has come.
-/

namespace Nosv

namespace DtLock

/-! ## The lock -/

/-- `union dtlock_node_cpu` -/
structure NodeCpu where
  flags : BitVec 2
  cpu : Nat
  deriving DecidableEq

/-- `struct dtlock_node` -/
structure Node where
  ticket : Nat
  cpu : NodeCpu
  deriving DecidableEq

/-- `union dtlock_signal` -/
structure Signal where
  /-- `DTLOCK_SIGNAL_SLEEP` in `signal_flags` -/
  sleep : Bool
  signalCnt : BitVec 31
  deriving DecidableEq

/-- What an answer points to -/
inductive Answer (α : Type) where
  | null
  /-- `DTLOCK_ITEM_RETRY` -/
  | retry
  | task (task : α)
  deriving DecidableEq

def Answer.isRetry {α : Type} : Answer α → Bool
  | .retry => true
  | .null | .task _ => false

/-- `struct dtlock_item` -/
structure Item (α : Type) where
  ticket : Nat
  item : Answer α
  scheduledCount : Nat
  signal : Signal
  next : BitVec 32
  flags : BitVec 2
  deriving DecidableEq

/-- `delegation_lock_t`; a sleep variable is a binary semaphore. -/
structure Lock (α : Type) where
  size : Nat
  head : Nat
  next : Nat
  waitqueue : Nat → Node
  items : Nat → Item α
  cpuSleepVars : Nat → Bool

/-- The arguments of `dtlock_lock_or_delegate` -/
structure Request where
  cpu : Nat
  blocking : Bool
  external : Bool
  deriving DecidableEq

/-- `DTLOCK_FLAGS_NONBLOCK` and `DTLOCK_FLAGS_EXTERNAL` -/
def Request.flags (r : Request) : BitVec 2 :=
  (if r.blocking = true then 0 else 1) ||| (if r.external = true then 0 else 2)

/-- The third argument of `dtlock_serve` -/
inductive SignalKind where
  | default
  | sleep
  | wake
  deriving DecidableEq

section Functions

variable {α : Type} (l : Lock α)

def Lock.id (ticket : Nat) : Nat := ticket % l.size

/-- `dtlock_init`, in memory that holds `memory` for the `next` of each item. -/
def dtlockInit (size : Nat) (memory : Nat → BitVec 32) : Lock α where
  size := size
  head := size
  next := size + 1
  waitqueue := Function.update (fun _ => ⟨0, ⟨0, 0⟩⟩) 0 ⟨size, ⟨0, 0⟩⟩
  items := fun i => ⟨0, .null, 0, ⟨false, 0⟩, memory i, 0⟩
  cpuSleepVars := fun _ => false

/-- `fetch_add` on `head` -/
def Lock.takeTicket : Lock α := { l with head := l.head + 1 }

def Lock.setNode (i : Nat) (node : Node) : Lock α :=
  { l with waitqueue := Function.update l.waitqueue i node }

def Lock.setItem (cpu : Nat) (item : Item α) : Lock α :=
  { l with items := Function.update l.items cpu item }

/-- A thread with a ticket stores the CPU of its request next to it. -/
def Lock.register (ticket : Nat) (r : Request) : Lock α :=
  l.setNode (l.id ticket) { l.waitqueue (l.id ticket) with cpu := ⟨r.flags, ticket + r.cpu⟩ }

/-- The ticket of the slot is stored, and `next` goes on. -/
def dtlockPopfront : Lock α :=
  { l.setNode (l.id l.next) { l.waitqueue (l.id l.next) with ticket := l.next } with next := l.next + 1 }

def dtlockEmpty : Bool := (l.waitqueue (l.id l.next)).cpu.cpu < l.next

def dtlockFront : Nat := (l.waitqueue (l.id l.next)).cpu.cpu - l.next

/-- `dtlock_popfront_wait` up to the store of the ticket -/
def Lock.transfer (cpu : Nat) : Lock α :=
  l.setItem cpu { l.items cpu with flags := (l.waitqueue (l.id l.next)).cpu.flags, ticket := l.next }

/-- The lock has been acquired by `dtlock_lock_or_delegate`. -/
def Lock.setFlags (r : Request) : Lock α := l.setItem r.cpu { l.items r.cpu with flags := r.flags }

/-- `dtlock_serve` -/
def dtlockServe (cpu : Nat) (item : Answer α) (scheduledCount : Nat) (signal : SignalKind) : Lock α :=
  let i := { l.items cpu with item := item, scheduledCount := scheduledCount }
  if signal = .wake then
    { l.setItem cpu i with cpuSleepVars := Function.update l.cpuSleepVars cpu true }
  else
    l.setItem cpu { i with next := i.next + 1, signal := ⟨signal = .sleep, (i.next + 1).setWidth 31⟩ }

/-- `nosv_futex_wait`, when it returns -/
def Lock.wait (cpu : Nat) : Lock α :=
  { l with cpuSleepVars := Function.update l.cpuSleepVars cpu false }

/-- `dtlock_is_cpu_blockable` -/
def dtlockIsCpuBlockable (cpu : Nat) : Bool := (l.items cpu).flags &&& 1 = 0

/-- `dtlock_requires_external` -/
def dtlockRequiresExternal (cpu : Nat) : Bool := (l.items cpu).flags &&& 2 = 0

end Functions

/-! ## Threads -/

/-- What the holder of the lock knows of the first queue -/
inductive Seen where
  | nothing
  /-- `dtlock_empty` has returned zero. -/
  | waiter
  /-- `dtlock_front` has returned the CPU. -/
  | front (cpu : Nat)
  /-- in `dtlock_popfront_wait`, about to store the ticket -/
  | popping (cpu : Nat)
  deriving DecidableEq

def Seen.isPopping : Seen → Bool
  | .popping _ => true
  | _ => false

/-- Where a thread is: the local `head` of the calls is their ticket, `prev`
is the `prev_signal`. -/
inductive Phase (α : Type) where
  | out
  /-- `dtlock_try_lock` has read `head`. -/
  | tried (ticket : Nat)
  /-- It has found that it is its turn. -/
  | turn (ticket : Nat)
  /-- `dtlock_lock` -/
  | locking (ticket : Nat)
  /-- `dtlock_lock_or_delegate`, before `prev_signal` is read -/
  | entered (r : Request)
  | sampled (r : Request) (prev : BitVec 31)
  | ticketed (r : Request) (prev : BitVec 31) (ticket : Nat)
  /-- registered, in the loop over the ticket of its slot -/
  | spinning (r : Request) (prev : BitVec 31) (ticket : Nat)
  | passed (r : Request) (prev : BitVec 31) (ticket : Nat)
  /-- in the loop over the signal -/
  | polling (r : Request) (prev : BitVec 31)
  | sleeping (r : Request)
  | answered (r : Request)
  /-- zero is about to be returned, with the answer. -/
  | served (r : Request) (item : Answer α) (scheduledCount : Nat)
  | holding (ticket : Nat) (seen : Seen)
  deriving DecidableEq

/-- How far a request in the second queue has come -/
inductive Progress where
  /-- There is none. -/
  | idle
  /-- moved, and not answered -/
  | moved
  /-- answered by `DTLOCK_SIGNAL_SLEEP` -/
  | asleep
  /-- answered by `DTLOCK_SIGNAL_DEFAULT` -/
  | served
  /-- answered by `DTLOCK_SIGNAL_WAKE`, after it was asleep -/
  | woken
  deriving DecidableEq

/-- What a ticket has become -/
inductive Fate where
  /-- It has been given the lock. -/
  | granted
  /-- It has been moved to the second queue. -/
  | moved
  deriving DecidableEq

structure State (ι α : Type) where
  lock : Lock α
  threads : ι → Phase α
  /-- the ticket that was given the lock last -/
  granted : Nat
  /-- the tickets that have been given the lock or have been moved -/
  log : List (Nat × Fate)
  progress : Nat → Progress
  /-- the last `dtlock_serve` for the request of a CPU -/
  last : Nat → Option (Answer α × Nat)

inductive Move (α : Type) where
  | tryLock
  | tryTicket
  /-- the exchange of `dtlock_try_lock`, which may fail for no reason -/
  | tryHead (fails : Bool)
  | lock
  | lockPass
  | enter (r : Request)
  | sample
  | take
  | register
  | pass
  /-- the ticket in `items` is read -/
  | acquire
  /-- The loop over the signal ends. -/
  | poll
  | wait
  | receive
  | leave
  | empty
  | front
  | transfer
  | popfront
  | serve (cpu : Nat) (item : Answer α) (scheduledCount : Nat) (signal : SignalKind)
  | unlock
  deriving DecidableEq

section Model

variable {ι α : Type} [DecidableEq ι]

def init (size : Nat) (memory : Nat → BitVec 32) : State ι α where
  lock := dtlockInit size memory
  threads := fun _ => .out
  granted := size
  log := [(size, Fate.granted)]
  progress := fun _ => .idle
  last := fun _ => none

/-- The thread goes to the next phase. -/
def State.to (s : State ι α) (t : ι) (phase : Phase α) : State ι α :=
  { s with threads := Function.update s.threads t phase }

@[simp] theorem State.to_self (s : State ι α) (t : ι) (p : Phase α) : (s.to t p).threads t = p :=
  Function.update_self ..

theorem State.to_ne (s : State ι α) {t u : ι} (p : Phase α) (hne : u ≠ t) : (s.to t p).threads u = s.threads u :=
  Function.update_of_ne hne ..

/-- The progress of a request after an answer -/
def SignalKind.progress : SignalKind → Progress
  | .default => .served
  | .sleep => .asleep
  | .wake => .woken

/-- What thread `t` does from a phase outside the lock -/
def clientStep (s : State ι α) (t : ι) : Phase α → Move α → Option (State ι α)
  | .out, .tryLock => some (s.to t (.tried s.lock.head))
  | .tried ticket, .tryTicket =>
      if (s.lock.waitqueue (s.lock.id ticket)).ticket = ticket then some (s.to t (.turn ticket))
      else some (s.to t .out)
  | .turn ticket, .tryHead fails =>
      if s.lock.head = ticket ∧ fails = false then
        some ({ s with lock := s.lock.takeTicket }.to t (.holding ticket .nothing))
      else some (s.to t .out)
  | .out, .lock => some ({ s with lock := s.lock.takeTicket }.to t (.locking s.lock.head))
  | .locking ticket, .lockPass =>
      if (s.lock.waitqueue (s.lock.id ticket)).ticket = ticket then
        some (s.to t (.holding ticket .nothing))
      else none
  | .out, .enter r => if r.cpu < s.lock.size then some (s.to t (.entered r)) else none
  | .entered r, .sample => some (s.to t (.sampled r (s.lock.items r.cpu).signal.signalCnt))
  | .sampled r prev, .take =>
      some ({ s with lock := s.lock.takeTicket }.to t (.ticketed r prev s.lock.head))
  | .ticketed r prev ticket, .register =>
      some ({ s with lock := s.lock.register ticket r }.to t (.spinning r prev ticket))
  | .spinning r prev ticket, .pass =>
      if (s.lock.waitqueue (s.lock.id ticket)).ticket < ticket then none
      else some (s.to t (.passed r prev ticket))
  | .passed r prev ticket, .acquire =>
      if (s.lock.items r.cpu).ticket ≠ ticket then
        some ({ s with lock := s.lock.setFlags r }.to t (.holding ticket .nothing))
      else some (s.to t (.polling r prev))
  | .polling r prev, .poll =>
      if (s.lock.items r.cpu).signal.signalCnt = prev then none
      else if (s.lock.items r.cpu).signal.sleep = true then some (s.to t (.sleeping r))
      else some (s.to t (.answered r))
  | .sleeping r, .wait =>
      if s.lock.cpuSleepVars r.cpu = true then
        some ({ s with lock := s.lock.wait r.cpu }.to t (.answered r))
      else none
  | .answered r, .receive =>
      let i := s.lock.items r.cpu
      some ({ s with progress := Function.update s.progress r.cpu .idle }.to t
        (if i.item.isRetry = true then .entered r else .served r i.item i.scheduledCount))
  | .served _ _ _, .leave => some (s.to t .out)
  | _, _ => none

/-- What thread `t` does while it holds the lock -/
def holderStep (s : State ι α) (t : ι) (ticket : Nat) (seen : Seen) : Move α → Option (State ι α)
  | .empty =>
      if seen.isPopping = true then none
      else some (s.to t (.holding ticket (if dtlockEmpty s.lock = true then .nothing else .waiter)))
  | .front => if seen = .waiter then some (s.to t (.holding ticket (.front (dtlockFront s.lock)))) else none
  | .transfer =>
      match seen with
      | .front cpu => some ({ s with lock := s.lock.transfer cpu }.to t (.holding ticket (.popping cpu)))
      | _ => none
  | .popfront =>
      match seen with
      | .popping cpu =>
          some ({ s with
            lock := dtlockPopfront s.lock
            log := s.log ++ [(s.lock.next, Fate.moved)]
            progress := Function.update s.progress cpu .moved
            last := Function.update s.last cpu none }.to t (.holding ticket .nothing))
      | _ => none
  | .serve cpu item scheduledCount signal =>
      if seen.isPopping = true then none
      else if cpu < s.lock.size then
        some { s with
          lock := dtlockServe s.lock cpu item scheduledCount signal
          progress := Function.update s.progress cpu signal.progress
          last := Function.update s.last cpu (some (item, scheduledCount)) }
      else none
  | .unlock =>
      if seen.isPopping = true then none
      else some ({ s with
        lock := dtlockPopfront s.lock
        granted := s.lock.next
        log := s.log ++ [(s.lock.next, Fate.granted)] }.to t .out)
  | _ => none

def step (s : State ι α) : ι × Move α → Option (State ι α)
  | (t, m) =>
      match s.threads t with
      | .holding ticket seen => holderStep s t ticket seen m
      | phase => clientStep s t phase m

/-! ## What is promised -/

/-- The request of a thread in `dtlock_lock_or_delegate` -/
def Phase.inside : Phase α → Option Request
  | .entered r | .sampled r _ | .ticketed r _ _ | .spinning r _ _ | .passed r _ _ | .polling r _
  | .sleeping r | .answered r | .served r _ _ => some r
  | .out | .tried _ | .turn _ | .locking _ | .holding _ _ => none

/-- An answer that may be given to a request of this progress: one by
`DTLOCK_SIGNAL_DEFAULT`, or one by `DTLOCK_SIGNAL_SLEEP` and later one by
`DTLOCK_SIGNAL_WAKE` -/
def Progress.Admits : Progress → SignalKind → Prop
  | .moved, .default | .moved, .sleep | .asleep, .wake => True
  | _, _ => False

/-- What is promised: one thread at a time delegates for a CPU, less than
`size` threads wait for tickets that have not been granted, and requests are
answered once. -/
def Promised (s : State ι α) : ι × Move α → Prop
  | (_, .enter r) => ∀ t, ∀ r' ∈ (s.threads t).inside, r'.cpu ≠ r.cpu
  | (_, .lock) | (_, .take) => s.lock.head + 1 < s.lock.next + s.lock.size
  | (_, .serve cpu _ _ signal) => (s.progress cpu).Admits signal
  | _ => True

instance : ∀ p : Progress, ∀ signal, Decidable (p.Admits signal)
  | .moved, .default | .moved, .sleep | .asleep, .wake => isTrue trivial
  | .moved, .wake | .asleep, .default | .asleep, .sleep | .idle, _ | .served, _ | .woken, _ => isFalse id

instance [Fintype ι] (s : State ι α) : ∀ a, Decidable (Promised s a)
  | (_, .enter _) => inferInstanceAs (Decidable (∀ _, _))
  | (_, .lock) | (_, .take) => inferInstanceAs (Decidable (_ < _))
  | (_, .serve _ _ _ _) => inferInstanceAs (Decidable (Progress.Admits _ _))
  | (_, .tryLock) | (_, .tryTicket) | (_, .tryHead _) | (_, .lockPass) | (_, .sample) | (_, .register)
  | (_, .pass) | (_, .acquire) | (_, .poll) | (_, .wait) | (_, .receive) | (_, .leave) | (_, .empty)
  | (_, .front) | (_, .transfer) | (_, .popfront) | (_, .unlock) => isTrue trivial

end Model

end DtLock

end Nosv
