import Mathlib.Data.List.Basic

/-! Ring buffers that keep one slot empty, so that equal indices mean an empty
queue. The laws relate masked indices to the list that the ring holds. -/

namespace AstraOS.Foundation

universe u
variable {α : Type u} {size head tail : Nat} {slots : Vector α size} {queue : List α}

/-- The slots from `tail` up to `head`, around the end, hold the queue. -/
structure RingHolds (slots : Vector α size) (head tail : Nat) (queue : List α) : Prop where
  tail_lt : tail < size
  length_lt : queue.length < size
  head_eq : head = (tail + queue.length) % size
  slot : ∀ i < queue.length, slots[(tail + i) % size]? = queue[i]?

theorem wrap_index (start : tail < size) (offset : i < size) :
    (tail + i) % size = if tail + i < size then tail + i else tail + i - size := by
  split
  · rename_i inside
    exact Nat.mod_eq_of_lt inside
  · rename_i beyond
    rw [Nat.mod_eq_sub_mod (by omega), Nat.mod_eq_of_lt (by omega)]

theorem RingHolds.head_lt (holds : RingHolds slots head tail queue) : head < size := by
  rw [holds.head_eq]
  exact Nat.mod_lt _ (Nat.zero_lt_of_lt holds.tail_lt)

theorem RingHolds.empty (start : tail < size) : RingHolds slots tail tail [] := by
  refine ⟨start, Nat.zero_lt_of_lt start, ?_, by simp⟩
  rw [List.length_nil, Nat.add_zero, Nat.mod_eq_of_lt start]

theorem RingHolds.eq_iff_empty (holds : RingHolds slots head tail queue) :
    tail = head ↔ queue = [] := by
  have start := holds.tail_lt
  have bound := holds.length_lt
  rw [holds.head_eq, wrap_index start bound, ← List.length_eq_zero_iff]
  split <;> omega

theorem RingHolds.next_eq_iff_full (holds : RingHolds slots head tail queue) :
    (head + 1) % size = tail ↔ queue.length + 1 = size := by
  have start := holds.tail_lt
  have bound := holds.length_lt
  have next : (head + 1) % size = (tail + (queue.length + 1)) % size := by
    rw [holds.head_eq, Nat.mod_add_mod, Nat.add_assoc]
  rw [next]
  by_cases full : queue.length + 1 = size
  · simp [full, Nat.mod_eq_of_lt start]
  · rw [wrap_index start (by omega)]
    split <;> omega

/-- The producer writes a slot outside the queue. -/
theorem RingHolds.push (holds : RingHolds slots head tail queue) (room : queue.length + 1 < size)
    (value : α) :
    RingHolds (slots.setIfInBounds head value) ((head + 1) % size) tail (queue ++ [value]) := by
  have start := holds.tail_lt
  refine ⟨start, by simpa using room, ?_, ?_⟩
  · rw [holds.head_eq, Nat.mod_add_mod, List.length_append, List.length_singleton, Nat.add_assoc]
  · intro i inside
    rw [List.length_append, List.length_singleton] at inside
    rw [Vector.getElem?_setIfInBounds]
    rcases Nat.lt_or_ge i queue.length with old | new
    · have apart : head ≠ (tail + i) % size := by
        rw [holds.head_eq, wrap_index start holds.length_lt, wrap_index start (by omega)]
        split <;> split <;> omega
      rw [if_neg apart, holds.slot i old, List.getElem?_append_left old]
    · obtain rfl : i = queue.length := by omega
      rw [← holds.head_eq, if_pos rfl, if_pos holds.head_lt]
      simp

theorem RingHolds.front (holds : RingHolds slots head tail (value :: rest)) :
    slots[tail]? = some value := by
  have first := holds.slot 0 (by simp)
  rw [Nat.add_zero, Nat.mod_eq_of_lt holds.tail_lt] at first
  simpa using first

theorem RingHolds.pop (holds : RingHolds slots head tail (value :: rest)) :
    RingHolds slots head ((tail + 1) % size) rest := by
  have length : (value :: rest).length = rest.length + 1 := rfl
  have bound := holds.length_lt
  refine ⟨Nat.mod_lt _ (Nat.zero_lt_of_lt holds.tail_lt), by omega, ?_, ?_⟩
  · rw [holds.head_eq, length, Nat.mod_add_mod, Nat.add_assoc, Nat.add_comm 1]
  · intro i inside
    have shifted := holds.slot (i + 1) (by omega)
    rw [Nat.mod_add_mod, Nat.add_assoc, Nat.add_comm 1, shifted]
    simp

end AstraOS.Foundation
