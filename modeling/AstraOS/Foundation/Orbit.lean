import Mathlib.Data.Fintype.EquivFin
import Mathlib.Logic.Function.Iterate
import AstraOS.Foundation.Loop

/-! Orbits of a function on a finite type. A guarded loop ends exactly when its
orbit leaves the guard, and on finitely many states that is when no state
comes back. -/

namespace AstraOS.Foundation

universe u
variable {State : Type u} {guard : State → Bool} {body : State → State}

/-- Enough fuel gives a result exactly when some iterate fails the guard. -/
theorem whileLoop_ends_iff (state : State) :
    (∃ fuel final, whileLoop guard body fuel state = some final) ↔
      ∃ k, guard (body^[k] state) = false := by
  constructor
  · rintro ⟨fuel, final, finished⟩
    induction fuel generalizing state with
    | zero => simp [whileLoop] at finished
    | succ fuel ih =>
      rw [whileLoop] at finished
      split at finished
      · obtain ⟨k, stopped⟩ := ih (body state) finished
        exact ⟨k + 1, stopped⟩
      · rename_i stopped
        exact ⟨0, by simpa using stopped⟩
  · rintro ⟨k, stopped⟩
    induction k generalizing state with
    | zero => exact ⟨1, state, by simpa [whileLoop] using stopped⟩
    | succ k ih =>
      by_cases continues : guard state = true
      · obtain ⟨fuel, final, finished⟩ := ih (body state) stopped
        exact ⟨fuel + 1, final, by simpa [whileLoop, continues] using finished⟩
      · exact ⟨1, state, by simp [whileLoop, continues]⟩

/-- After a repetition the orbit stays among the states up to it. -/
theorem iterate_mem_of_repeat (f : State → State) (start : State) {i j : Nat} (before : i < j)
    (same : f^[i] start = f^[j] start) (n : Nat) : ∃ m ≤ j, f^[n] start = f^[m] start := by
  induction n with
  | zero => exact ⟨0, Nat.zero_le j, rfl⟩
  | succ n ih =>
    obtain ⟨m, bound, equal⟩ := ih
    rw [Function.iterate_succ_apply', equal]
    rcases Nat.lt_or_eq_of_le bound with inside | rfl
    · exact ⟨m + 1, inside, (Function.iterate_succ_apply' f m start).symm⟩
    · rw [← same]
      exact ⟨i + 1, before, (Function.iterate_succ_apply' f i start).symm⟩

/-- On a finite type an orbit leaves a region exactly when it visits no state
of the region twice before. -/
theorem orbit_leaves_iff [Finite State] (f : State → State) (inside : State → Prop) (start : State) :
    (∃ k, ¬ inside (f^[k] start)) ↔
      ∀ i j, i < j → (∀ k ≤ j, inside (f^[k] start)) → f^[i] start ≠ f^[j] start := by
  constructor
  · rintro ⟨k, left⟩ i j before stays same
    obtain ⟨m, bound, equal⟩ := iterate_mem_of_repeat f start before same k
    exact left (equal ▸ stays m bound)
  · intro distinct
    by_contra never
    have stays : ∀ k, inside (f^[k] start) := fun k => Classical.not_not.mp (fun left => never ⟨k, left⟩)
    have injective : Function.Injective (fun k => f^[k] start) := by
      intro i j same
      rcases Nat.lt_trichotomy i j with before | equal | after
      · exact absurd same (distinct i j before (fun k _ => stays k))
      · exact equal
      · exact absurd same.symm (distinct j i after (fun k _ => stays k))
    exact not_injective_infinite_finite _ injective

end AstraOS.Foundation
