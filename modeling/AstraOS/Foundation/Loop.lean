import Mathlib.Data.List.Range

/-! Loops over an explicit state. A counted loop is a fold over its index
range; a guarded loop carries fuel, so that divergence is the absence of a
result and not a default value. -/

namespace AstraOS.Foundation

universe u
variable {State : Type u}

/-- `for (i = lo; i < hi; i++) body`. -/
def forRange (lo hi : Nat) (body : Nat → State → State) (state : State) : State :=
  (List.range' lo (hi - lo)).foldl (fun state i => body i state) state

/-- The counted loop whose body may fault; the first fault ends the loop. -/
def forRangeM (lo hi : Nat) (body : Nat → State → Option State) (state : State) : Option State :=
  (List.range' lo (hi - lo)).foldlM (fun state i => body i state) state

/-- `while (guard) body`, cut off after `fuel` tests of the guard. -/
def whileLoop (guard : State → Bool) (body : State → State) : Nat → State → Option State
  | 0, _ => none
  | fuel + 1, state =>
    if guard state then whileLoop guard body fuel (body state) else some state

theorem forRange_empty (body : Nat → State → State) (state : State) (empty : hi ≤ lo) :
    forRange lo hi body state = state := by
  simp [forRange, Nat.sub_eq_zero_of_le empty]

theorem forRange_succ (body : Nat → State → State) (state : State) (ordered : lo ≤ hi) :
    forRange lo (hi + 1) body state = body hi (forRange lo hi body state) := by
  unfold forRange
  rw [Nat.sub_add_comm ordered, List.range'_1_concat, List.foldl_append]
  simp [Nat.add_sub_of_le ordered]

/-- An invariant indexed by the next iteration holds at the loop's exit. -/
theorem forRange_invariant (invariant : Nat → State → Prop) {body : Nat → State → State}
    {state : State} (ordered : lo ≤ hi) (initial : invariant lo state)
    (preserved : ∀ i current, lo ≤ i → i < hi → invariant i current →
      invariant (i + 1) (body i current)) :
    invariant hi (forRange lo hi body state) := by
  induction hi, ordered using Nat.le_induction with
  | base =>
    rw [forRange_empty body state le_rfl]
    exact initial
  | succ hi ordered ih =>
    rw [forRange_succ body state ordered]
    apply preserved hi _ ordered (Nat.lt_succ_self hi)
    apply ih
    intro i current above below
    exact preserved i current above (Nat.lt_succ_of_lt below)

theorem forRangeM_empty (body : Nat → State → Option State) (state : State) (empty : hi ≤ lo) :
    forRangeM lo hi body state = some state := by
  simp [forRangeM, Nat.sub_eq_zero_of_le empty]

theorem forRangeM_succ (body : Nat → State → Option State) (state : State) (ordered : lo ≤ hi) :
    forRangeM lo (hi + 1) body state = (forRangeM lo hi body state).bind (body hi) := by
  unfold forRangeM
  rw [Nat.sub_add_comm ordered, List.range'_1_concat, List.foldlM_append]
  simp [Nat.add_sub_of_le ordered]

/-- Total correctness of a faulting loop: no iteration faults, and the
invariant holds at the exit. -/
theorem forRangeM_invariant (invariant : Nat → State → Prop) {body : Nat → State → Option State}
    {state : State} (ordered : lo ≤ hi) (initial : invariant lo state)
    (preserved : ∀ i current, lo ≤ i → i < hi → invariant i current →
      ∃ next, body i current = some next ∧ invariant (i + 1) next) :
    ∃ final, forRangeM lo hi body state = some final ∧ invariant hi final := by
  induction hi, ordered using Nat.le_induction with
  | base => exact ⟨state, forRangeM_empty body state le_rfl, initial⟩
  | succ hi ordered ih =>
    obtain ⟨middle, reached, held⟩ := ih (fun i current above below =>
      preserved i current above (Nat.lt_succ_of_lt below))
    obtain ⟨final, success, kept⟩ := preserved hi middle ordered (Nat.lt_succ_self hi) held
    refine ⟨final, ?_, kept⟩
    rw [forRangeM_succ body state ordered, reached]
    exact success

/-- More fuel never changes the result of a loop that has ended. -/
theorem whileLoop_mono {guard : State → Bool} {body : State → State} {state final : State}
    (finished : whileLoop guard body fuel state = some final) (more : fuel ≤ budget) :
    whileLoop guard body budget state = some final := by
  induction fuel generalizing state budget with
  | zero => simp [whileLoop] at finished
  | succ fuel ih =>
    obtain ⟨extra, rfl⟩ := Nat.exists_eq_add_of_le more
    rw [Nat.add_right_comm, whileLoop]
    rw [whileLoop] at finished
    split at finished
    · rename_i continues
      rw [if_pos continues]
      exact ih finished (Nat.le_add_right fuel extra)
    · rename_i stops
      rw [if_neg stops]
      exact finished

end AstraOS.Foundation
