import Mathlib.Data.List.Basic
import Mathlib.Tactic.Common

/-!
# The loop of `segment_create`

One process on its way through `segment_create`, for whatever the system
returns to it: the descriptors that it has open and locked, the mapping at
`shm_start`, and the initialisations that it runs. What an initialisation
does is part of the model of the segment.

`none` is the end of the process: an assertion, a call that fails, or one
that never returns. A mapping with `MAP_FIXED_NOREPLACE` fails where
something is mapped already, and `flock` waits for a lock that is held
through another open descriptor of the same file, also by the process itself.
-/

namespace Nosv

/-- What one pass of the loop gets from `shm_open`, the descriptor and the
file that it is for, from `fstat` and, for a segment with a size, from
`check_processes_correct`. -/
structure ShmResults where
  fd : Nat
  file : Nat
  nlink : Nat
  size : Nat
  correct : Bool
  deriving DecidableEq, Repr

inductive SmemInit where
  | first
  | rest
  deriving DecidableEq, Repr

/-- A process in `segment_create`. The initialisations are recorded with the
number of the pass. -/
structure SegmentCreate where
  smemFd : Nat
  opened : List Nat
  /-- the descriptors, with their files -/
  locked : List (Nat × Nat)
  mapped : Option Nat
  passes : Nat
  inits : List (SmemInit × Nat)
  /-- how often `count` of the segment has been incremented -/
  counted : Nat
  deriving DecidableEq, Repr

namespace SegmentCreate

variable (shmSize : Nat)

def start : SegmentCreate := ⟨0, [], [], none, 0, [], 0⟩

/-- `shm_unlock` and `close`, before the next pass -/
def release (s : SegmentCreate) : SegmentCreate :=
  { s with locked := s.locked.filter (·.1 ≠ s.smemFd), opened := s.opened.erase s.smemFd, smemFd := 0 }

/-- `shm_open` and `shm_lock` -/
def openLocked (s : SegmentCreate) (r : ShmResults) : Option SegmentCreate :=
  if ∃ l ∈ s.locked, l.2 = r.file then none
  else some { s with smemFd := r.fd, opened := r.fd :: s.opened, locked := (r.fd, r.file) :: s.locked }

/-- `mmap` at `shm_start` -/
def mmap (s : SegmentCreate) : Option SegmentCreate :=
  if s.mapped = none then some { s with mapped := some s.smemFd } else none

def smemInitialize (s : SegmentCreate) (init : SmemInit) : SegmentCreate :=
  { s with inits := s.inits ++ [(init, s.passes)] }

/-- The body of the loop, with the descriptor open and locked -/
def register (s : SegmentCreate) (r : ShmResults) : Option SegmentCreate :=
  (if r.nlink = 0 then some s.release
    else if r.size ≠ 0 then
      if r.size = shmSize then
        s.mmap.map fun s => if r.correct then s.smemInitialize .rest else { s with mapped := none }.release
      else none
    else s.mmap.map fun s => s.smemInitialize .first).map fun s => { s with passes := s.passes + 1 }

/-- The body of the loop -/
def pass (s : SegmentCreate) (r : ShmResults) : Option SegmentCreate :=
  (s.openLocked r).bind fun s => s.register shmSize r

def loop (results : Nat → ShmResults) : Nat → SegmentCreate → Option SegmentCreate
  | 0, _ => none
  | fuel + 1, s => if s.smemFd = 0 then (s.pass shmSize (results s.passes)).bind (loop results fuel) else some s

/-- What is left after the loop: `count` is incremented, and the lock released. -/
def afterLoop (s : SegmentCreate) : SegmentCreate :=
  { s with counted := s.counted + 1, locked := s.locked.filter (·.1 ≠ s.smemFd) }

def segmentCreate (results : Nat → ShmResults) (fuel : Nat) : Option SegmentCreate :=
  (loop shmSize results fuel start).map afterLoop

/-! ## Registering once -/

/-- The segment of this pass was unlinked by somebody else, or a process in
it is dead. -/
def Retries (r : ShmResults) : Prop := r.nlink = 0 ∨ r.size ≠ 0 ∧ r.size = shmSize ∧ r.correct = false

/-- The segment of this pass is linked, and new or without dead processes. -/
def Good (r : ShmResults) : Prop := r.nlink ≠ 0 ∧ (r.size = 0 ∨ r.size = shmSize ∧ r.correct = true)

/-- Pass `n` is the first one that finds a good segment. -/
def Finds (results : Nat → ShmResults) (n : Nat) : Prop :=
  (∀ k < n, Retries shmSize (results k)) ∧ Good shmSize (results n)

/-- `segment_create` initialises once, in pass `n`, and leaves the loop with
the locked descriptor of that pass as the only one open; it increments
`count` once, and releases the lock. -/
def RegistersOnce (results : Nat → ShmResults) (n : Nat) : Prop :=
  ∃ fuel s s', loop shmSize results fuel start = some s ∧ segmentCreate shmSize results fuel = some s'
    ∧ (∃ init, s.inits = [(init, n)]) ∧ s.passes = n + 1 ∧ s.smemFd = (results n).fd
    ∧ s.opened = [(results n).fd] ∧ s.locked = [((results n).fd, (results n).file)]
    ∧ s.mapped = some (results n).fd
    ∧ s' = { s with counted := 1, locked := [] }

variable {shmSize} {results : Nat → ShmResults} {n : Nat} {r : ShmResults} {s : SegmentCreate}

/-- A pass that retries leaves nothing behind. -/
theorem pass_retries (hmapped : s.mapped = none) (hfd : s.smemFd = 0) (hlocked : s.locked = [])
    (hr : Retries shmSize r) : s.pass shmSize r = some { s with passes := s.passes + 1 } := by
  obtain ⟨smemFd, opened, locked, mapped, passes, inits, counted⟩ := s
  dsimp only at hmapped hfd hlocked
  subst hmapped hfd hlocked
  rw [pass, openLocked, if_neg (by simp), Option.bind_some, register]
  rcases hr with hlink | ⟨hsize, hshm, hcorrect⟩
  · rw [if_pos hlink]
    simp [release]
  · by_cases hlink : r.nlink = 0
    · rw [if_pos hlink]
      simp [release]
    · rw [if_neg hlink, if_pos hsize, if_pos hshm]
      simp [release, mmap, hcorrect]

/-- The passes before the good one -/
theorem loop_retries (hretries : ∀ k < n, Retries shmSize (results k)) (fuel : Nat) :
    loop shmSize results (fuel + n) start = loop shmSize results fuel ⟨0, [], [], none, n, [], 0⟩ := by
  induction n generalizing fuel with
  | zero => rfl
  | succ n ih =>
      rw [Nat.add_comm n 1, ← Nat.add_assoc, ih (fun k hk => hretries k (Nat.lt_succ_of_lt hk)), loop, if_pos rfl,
        pass_retries rfl rfl rfl (hretries n (Nat.lt_succ_self n)), Option.bind_some, Nat.add_comm 1 n]

/-- The pass that finds a good segment -/
theorem pass_good (hgood : Good shmSize (results n)) :
    ∃ init, pass shmSize ⟨0, [], [], none, n, [], 0⟩ (results n)
      = some ⟨(results n).fd, [(results n).fd], [((results n).fd, (results n).file)], some (results n).fd, n + 1,
        [(init, n)], 0⟩ := by
  rw [pass, openLocked, if_neg (by simp), Option.bind_some, register]
  obtain ⟨hlink, hsize | ⟨hsize, hcorrect⟩⟩ := hgood
  · refine ⟨.first, ?_⟩
    rw [if_neg hlink, if_neg (not_not_intro hsize)]
    rfl
  · by_cases hzero : (results n).size = 0
    · refine ⟨.first, ?_⟩
      rw [if_neg hlink, if_neg (not_not_intro hzero)]
      rfl
    · refine ⟨.rest, ?_⟩
      rw [if_neg hlink, if_pos hzero, if_pos hsize]
      simp [mmap, hcorrect, smemInitialize]

/-- With a mapping, and `0` for the descriptor, the loop does not come to an
end. -/
theorem loop_mapped (hmapped : s.mapped ≠ none) (hfd : s.smemFd = 0) (fuel : Nat) :
    loop shmSize results fuel s = none := by
  induction fuel generalizing s with
  | zero => rfl
  | succ fuel ih =>
      have hmmap : ({ s with
          smemFd := (results s.passes).fd
          opened := (results s.passes).fd :: s.opened
          locked := ((results s.passes).fd, (results s.passes).file) :: s.locked } : SegmentCreate).mmap = none :=
        if_neg hmapped
      rw [loop, if_pos hfd, pass, openLocked]
      by_cases hheld : ∃ l ∈ s.locked, l.2 = (results s.passes).file
      · rw [if_pos hheld]
        rfl
      · rw [if_neg hheld, Option.bind_some, register]
        by_cases hlink : (results s.passes).nlink = 0
        · rw [if_pos hlink, Option.map_some, Option.bind_some]
          exact ih hmapped rfl
        · rw [if_neg hlink, hmmap]
          split
          · split <;> rfl
          · rfl

theorem loop_mono {k : Nat} {s' : SegmentCreate} :
    ∀ {fuel : Nat} {s : SegmentCreate}, loop shmSize results fuel s = some s' →
      loop shmSize results (fuel + k) s = some s'
  | 0, s, h => by cases h
  | fuel + 1, s, h => by
      rw [loop] at h
      rw [Nat.add_right_comm, loop]
      by_cases hfd : s.smemFd = 0
      · rw [if_pos hfd] at h ⊢
        obtain ⟨t, hpass, hrest⟩ := Option.bind_eq_some_iff.mp h
        rw [hpass]
        exact loop_mono hrest
      · rw [if_neg hfd] at h ⊢
        exact h

/-- `segment_create` registers once if, and only if, the segment that it
finds does not get the descriptor `0`. -/
theorem registers_once_iff (hfinds : Finds shmSize results n) :
    RegistersOnce shmSize results n ↔ (results n).fd ≠ 0 := by
  obtain ⟨init, hpass⟩ := pass_good hfinds.2
  have hloop : ∀ fuel, loop shmSize results (fuel + 1 + n) start = loop shmSize results fuel
      ⟨(results n).fd, [(results n).fd], [((results n).fd, (results n).file)], some (results n).fd, n + 1,
        [(init, n)], 0⟩ := by
    intro fuel
    rw [loop_retries hfinds.1, loop, if_pos rfl]
    exact congrArg (Option.bind · _) hpass
  constructor
  · rintro ⟨fuel, s, -, hs, -⟩ hfd
    have hlong := loop_mono (k := 1 + n) hs
    rw [← Nat.add_assoc, hloop fuel, loop_mapped (by simp) hfd] at hlong
    cases hlong
  · intro hfd
    have hend := hloop 1
    rw [loop, if_neg hfd] at hend
    refine ⟨1 + 1 + n, _, _, hend, by rw [segmentCreate, hend]; rfl, ⟨init, rfl⟩, rfl, rfl, rfl, rfl, rfl, ?_⟩
    simp [afterLoop]

/-- A stale segment, and then a new one -/
theorem registers_once_iff_two :
    Finds 4096 (fun k => if k = 0 then ⟨3, 7, 1, 4096, false⟩ else ⟨3, 8, 1, 0, true⟩) 1
      ∧ (RegistersOnce 4096 (fun k => if k = 0 then ⟨3, 7, 1, 4096, false⟩ else ⟨3, 8, 1, 0, true⟩) 1 ↔ 3 ≠ 0) :=
  have hfinds : Finds 4096 (fun k => if k = 0 then ⟨3, 7, 1, 4096, false⟩ else ⟨3, 8, 1, 0, true⟩) 1 := by
    refine ⟨fun k hk => ?_, by simp [Good]⟩
    obtain rfl : k = 0 := by omega
    simp [Retries]
  ⟨hfinds, registers_once_iff hfinds⟩

/-- With the standard input closed, the first segment is a new one with the
descriptor `0`. The loop goes on to open it again, and waits for the lock
that it holds already; what came after that would not be mapped. -/
theorem create_with_descriptor_zero :
    Finds 4096 (fun k => ⟨k, 7, 1, if k = 0 then 0 else 4096, true⟩) 0
      ∧ pass 4096 start ⟨0, 7, 1, 0, true⟩ = some ⟨0, [0], [(0, 7)], some 0, 1, [(.first, 0)], 0⟩
      ∧ openLocked ⟨0, [0], [(0, 7)], some 0, 1, [(.first, 0)], 0⟩ ⟨1, 7, 1, 4096, true⟩ = none
      ∧ pass 4096 ⟨0, [0], [(0, 7)], some 0, 1, [(.first, 0)], 0⟩ ⟨1, 8, 1, 4096, true⟩ = none
      ∧ ¬ RegistersOnce 4096 (fun k => ⟨k, 7, 1, if k = 0 then 0 else 4096, true⟩) 0 := by
  refine ⟨⟨fun k hk => absurd hk (Nat.not_lt_zero k), by simp [Good]⟩, by decide, by decide, by decide, ?_⟩
  rintro ⟨fuel, s, -, hs, -⟩
  -- the second pass begins with a mapping
  have hsecond : loop 4096 (fun k => ⟨k, 7, 1, if k = 0 then 0 else 4096, true⟩) (fuel + 1) start
      = loop 4096 (fun k => ⟨k, 7, 1, if k = 0 then 0 else 4096, true⟩) fuel
        ⟨0, [0], [(0, 7)], some 0, 1, [(.first, 0)], 0⟩ := rfl
  have hlong := loop_mono (k := 1) hs
  rw [hsecond, loop_mapped (by simp) rfl] at hlong
  cases hlong

end SegmentCreate

end Nosv
