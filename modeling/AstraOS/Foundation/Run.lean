import Mathlib.Logic.Basic
import Mathlib.Order.WellFounded

/-! Finite runs of a labelled transition relation. Every prefix of a run is a
run, so a law about all runs is a law about every point of every run. -/

namespace AstraOS.Foundation

universe u v w
variable {State : Type u} {Label : Type v} {Spec : Type w}

/-- The states reachable from `start`, with the labels taken, oldest first. -/
inductive Run (step : State → Label → State → Prop) (start : State) : List Label → State → Prop where
  | start : Run step start [] start
  | next {labels : List Label} {state after : State} {label : Label}
      (earlier : Run step start labels state) (taken : step state label after) :
      Run step start (labels ++ [label]) after

variable {step : State → Label → State → Prop} {spec : Spec → Label → Spec → Prop}

/-- Safety over whole runs: an invariant of the labels so far and the state. -/
theorem Run.invariant (invariant : List Label → State → Prop) {start finish : State}
    {labels : List Label} (run : Run step start labels finish) (initial : invariant [] start)
    (preserved : ∀ earlier state label after, invariant earlier state →
      step state label after → invariant (earlier ++ [label]) after) :
    invariant labels finish := by
  induction run with
  | start => exact initial
  | next earlier taken ih => exact preserved _ _ _ _ ih taken

/-- A step that can be taken from each state of a sequence to the next can be repeated. -/
theorem Run.replicate {start : State} {labels : List Label} {label : Label} (states : Nat → State)
    (run : Run step start labels (states 0)) (again : ∀ k, step (states k) label (states (k + 1))) (count : Nat) :
    Run step start (labels ++ List.replicate count label) (states count) := by
  induction count with
  | zero => simpa using run
  | succ count ih =>
    rw [List.replicate_succ', ← List.append_assoc]
    exact .next ih (again count)

theorem Run.append {start middle finish : State} {labels more : List Label} (first : Run step start labels middle)
    (second : Run step middle more finish) : Run step start (labels ++ more) finish := by
  induction second with
  | start => exact (List.append_nil labels).symm ▸ first
  | next earlier taken ih => exact List.append_assoc .. ▸ .next ih taken

/-- Progress by a rank: where every state short of the goal has a step down, a run reaches the goal. -/
theorem Run.reaches {Rank : Type w} [LT Rank] [WellFoundedLT Rank] (rank : State → Rank) (holds goal : State → Prop)
    (down : ∀ state, holds state → ¬ goal state →
      ∃ label after, step state label after ∧ holds after ∧ rank after < rank state) (start : State)
    (initial : holds start) : ∃ labels finish, Run step start labels finish ∧ goal finish := by
  have descends : WellFounded (InvImage (· < ·) rank) := InvImage.wf rank wellFounded_lt
  induction start using descends.induction with
  | _ start ih =>
    by_cases there : goal start
    · exact ⟨[], start, .start, there⟩
    · obtain ⟨label, after, taken, kept, lower⟩ := down start initial there
      obtain ⟨labels, finish, run, reached⟩ := ih after lower kept
      exact ⟨[label] ++ labels, finish, .append (.next .start taken) run, reached⟩

/-- Forward simulation: each step is matched by a specification step with the
same label, so each run is matched by a specification run. -/
theorem Run.simulation (related : State → Spec → Prop) {start finish : State} {origin : Spec}
    {labels : List Label} (run : Run step start labels finish) (initial : related start origin)
    (matched : ∀ state label after model, related state model → step state label after →
      ∃ next, spec model label next ∧ related after next) :
    ∃ model, Run spec origin labels model ∧ related finish model := by
  induction run with
  | start => exact ⟨origin, .start, initial⟩
  | next earlier taken ih =>
    obtain ⟨model, followed, held⟩ := ih
    obtain ⟨next, answered, kept⟩ := matched _ _ _ model held taken
    exact ⟨next, .next followed answered, kept⟩

/-- Simulation with stuttering: a step is seen as a step of the specification,
or it is not seen and changes nothing there. -/
theorem Run.stutter {Seen : Type u} {spec : Spec → Seen → Spec → Prop} (related : State → Spec → Prop)
    (seen : Label → Option Seen) {start finish : State} {origin : Spec} {labels : List Label}
    (run : Run step start labels finish) (initial : related start origin)
    (matched : ∀ state label after model, related state model → step state label after →
      (seen label = none ∧ related after model) ∨
        ∃ observed next, seen label = some observed ∧ spec model observed next ∧ related after next) :
    ∃ model, Run spec origin (labels.filterMap seen) model ∧ related finish model := by
  induction run with
  | start => exact ⟨origin, .start, initial⟩
  | @next state labels label after earlier taken ih =>
    obtain ⟨model, followed, held⟩ := ih
    rw [List.filterMap_append]
    rcases matched _ _ _ model held taken with ⟨unseen, kept⟩ | ⟨observed, next, visible, answered, kept⟩
    · rw [List.filterMap_cons_none unseen, List.filterMap_nil, List.append_nil]
      exact ⟨model, followed, kept⟩
    · rw [List.filterMap_cons_some visible, List.filterMap_nil]
      exact ⟨next, .next followed answered, kept⟩

end AstraOS.Foundation
