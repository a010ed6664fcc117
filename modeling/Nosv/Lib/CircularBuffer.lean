import Mathlib.Data.List.Basic
import Mathlib.Logic.Function.Basic
import Mathlib.Tactic.Common

/-!
# Circular buffers

A fixed number of slots, an index `head` of the next slot to write and an
index `tail` of the next one to read. The slots from `tail` up to `head`,
modulo the size, hold the contents; one slot stays free, so that equal
indices mean that the buffer is empty.

The indices are advanced one at a time by different parties, so every
lemma is about one index and says what becomes of the contents.
-/

namespace CircularBuffer

variable {α : Type*} {size head tail i j k : Nat}

/-- The number of slots from `tail` to `head`. -/
def distance (size head tail : Nat) : Nat := if tail ≤ head then head - tail else size - tail + head

/-- The values from `tail` to `head`, in the order in which they were
written. -/
def contents (size : Nat) (entries : Nat → α) (head tail : Nat) : List α :=
  (List.range (distance size head tail)).map fun i => entries ((tail + i) % size)

/-! ## Indices -/

/-- An index that is advanced by less than the size wraps at most once. -/
theorem wrap_eq (hi : i < size) (hk : k ≤ size) :
    (i + k) % size = if i + k < size then i + k else i + k - size := by
  split
  · exact Nat.mod_eq_of_lt ‹_›
  · rw [Nat.mod_eq_sub_mod (by omega), Nat.mod_eq_of_lt (by omega)]

theorem wrap_lt (hi : i < size) (k : Nat) : (i + k) % size < size := Nat.mod_lt _ (by omega)

/-- Different offsets lead to different slots. -/
theorem wrap_inj (ht : tail < size) (hi : i < size) (hj : j < size)
    (h : (tail + i) % size = (tail + j) % size) : i = j := by
  rw [wrap_eq ht (by omega), wrap_eq ht (by omega)] at h
  split at h <;> split at h <;> omega

theorem distance_self (size i : Nat) : distance size i i = 0 := by
  simp [distance]

theorem distance_lt (hh : head < size) (ht : tail < size) : distance size head tail < size := by
  unfold distance
  split <;> omega

theorem distance_eq_zero_iff (ht : tail < size) : distance size head tail = 0 ↔ head = tail := by
  unfold distance
  split <;> omega

/-- The distance is what has to be added to the tail to reach the head. -/
theorem add_distance (hh : head < size) (ht : tail < size) :
    (tail + distance size head tail) % size = head := by
  have := distance_lt hh ht
  rw [wrap_eq ht (by omega)]
  unfold distance at *
  split <;> split <;> omega

/-- The head may advance as long as it does not reach the tail. -/
theorem distance_advance_head (hh : head < size) (ht : tail < size)
    (hroom : distance size head tail + 1 < size) :
    distance size ((head + 1) % size) tail = distance size head tail + 1 := by
  rw [wrap_eq hh (by omega)]
  unfold distance at *
  split at hroom <;> split <;> split <;> omega

theorem room_of_next_ne (hh : head < size) (ht : tail < size) (hne : (head + 1) % size ≠ tail) :
    distance size head tail + 1 < size := by
  rw [wrap_eq hh (by omega)] at hne
  unfold distance
  split at hne <;> split <;> omega

theorem distance_advance_tail (hh : head < size) (ht : tail < size)
    (hk : k ≤ distance size head tail) :
    distance size head ((tail + k) % size) = distance size head tail - k := by
  have := distance_lt hh ht
  rw [wrap_eq ht (by omega)]
  unfold distance at *
  split at hk <;> split <;> split <;> omega

/-! ## Contents -/

variable {entries : Nat → α}

@[simp] theorem length_contents : (contents size entries head tail).length = distance size head tail := by
  simp [contents]

theorem contents_self (size : Nat) (entries : Nat → α) (i : Nat) : contents size entries i i = [] := by
  simp [contents, distance_self]

theorem getElem?_contents (hi : i < distance size head tail) :
    (contents size entries head tail)[i]? = some (entries ((tail + i) % size)) := by
  simp [contents, hi]

/-- The contents do not include the slot of the head. -/
theorem contents_write (hh : head < size) (ht : tail < size) (v : α) :
    contents size (Function.update entries head v) head tail = contents size entries head tail := by
  have hlt := distance_lt hh ht
  refine List.map_congr_left fun i hi => Function.update_of_ne ?_ ..
  rw [List.mem_range] at hi
  intro heq
  have hdist := add_distance hh ht
  exact absurd (wrap_inj ht (by omega) hlt (heq.trans hdist.symm)) (by omega)

/-- Advancing the head adds the value that was written to its slot. -/
theorem contents_advance_head (hh : head < size) (ht : tail < size)
    (hroom : distance size head tail + 1 < size) :
    contents size entries ((head + 1) % size) tail =
      contents size entries head tail ++ [entries head] := by
  rw [contents, distance_advance_head hh ht hroom, List.range_succ, List.map_append,
    List.map_singleton, add_distance hh ht]
  rfl

/-- Advancing the tail drops the oldest values. -/
theorem contents_advance_tail (hh : head < size) (ht : tail < size)
    (hk : k ≤ distance size head tail) :
    contents size entries head ((tail + k) % size) = (contents size entries head tail).drop k := by
  have hlt := distance_lt hh ht
  refine List.ext_getElem? fun i => ?_
  rw [List.getElem?_drop]
  by_cases hi : i < distance size head tail - k
  · rw [getElem?_contents (by rw [distance_advance_tail hh ht hk]; exact hi),
      getElem?_contents (by omega), Nat.mod_add_mod, Nat.add_assoc]
  · rw [List.getElem?_eq_none, List.getElem?_eq_none]
    · rw [length_contents]
      omega
    · rw [length_contents, distance_advance_tail hh ht hk]
      omega

/-- The next value to read, when `k` have been read already. -/
theorem take_succ_contents (hk : k < distance size head tail) :
    (contents size entries head tail).take (k + 1) =
      (contents size entries head tail).take k ++ [entries ((tail + k) % size)] := by
  rw [List.take_add_one, getElem?_contents hk, Option.toList_some]

end CircularBuffer
