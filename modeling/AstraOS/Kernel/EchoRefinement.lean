import AstraOS.Kernel.EchoProgress

/-! The detailed loop refines the rounds of `IdleLoop`: an echo takes place when
`keyboard_getchar` returns, a poll that finds nothing is a round without one. -/

namespace AstraOS.Kernel
open AstraOS.Foundation AstraOS.Drivers

def EchoEvent.idle? : EchoEvent → Option IdleEvent
  | .irq0 => some .irq0
  | .irq1 sc => some (.irq1 sc)
  | .report given => some (.report given)
  | .poll false => some (.echo none)
  | .got c => some (.echo (some c))
  | _ => none

def EchoPoint.idle : EchoPoint → IdlePoint
  | .reporting _ => .echoing
  | .polling => .echoing
  | .fetching => .echoing
  | _ => .reading

def EchoState.idle (state : EchoState) : IdleState :=
  ⟨state.ticks, state.lastSec, state.keyboard.kb, state.point.idle⟩

/-- What a step of a round has to send. -/
def IdleEvent.line : IdleEvent → List (BitVec 8)
  | .report given => reportBytes given
  | .echo (some c) => [c]
  | _ => []

section
variable {uart : Uart} {start state after : EchoState} {terminal : Terminal} {waiting : List (BitVec 8)}
variable {events : List EchoEvent} {event : EchoEvent} {queue : CharQueue}

/-- A step that rounds do not show, or one of theirs; a character in flight is owed already. -/
structure IdleMatched (state : EchoState) (event : EchoEvent) (after : EchoState) : Prop where
  step : (event.idle? = none ∧ after.idle = state.idle) ∨
    ∃ seen, event.idle? = some seen ∧ IdleStep state.idle seen after.idle
  owed : state.point.unshown ++ event.idle?.toList.flatMap IdleEvent.line = event.owed ++ after.point.unshown

/-- The run of the rounds behind a run of the loop. -/
structure Rounds (start : EchoState) (events : List EchoEvent) (state : EchoState) : Prop where
  run : Run IdleStep start.idle (events.filterMap EchoEvent.idle?) state.idle
  owed : (events.filterMap EchoEvent.idle?).flatMap IdleEvent.line = owedBytes events ++ state.point.unshown

theorem Rounds.step (held : Rounds start events state) (matched : IdleMatched state event after) :
    Rounds start (events ++ [event]) after := by
  obtain ⟨run, owed⟩ := held
  obtain ⟨step, balance⟩ := matched
  have more : (events ++ [event]).filterMap EchoEvent.idle? = events.filterMap EchoEvent.idle? ++ event.idle?.toList := by
    rw [List.filterMap_append]
    cases seen : event.idle? with
    | none => simp [seen]
    | some observed => simp [seen]
  constructor
  · rw [more]
    rcases step with ⟨unseen, same⟩ | ⟨seen, visible, taken⟩
    · rw [unseen, same, Option.toList_none, List.append_nil]
      exact run
    · rw [visible]
      exact run.next taken
  · rw [more, List.flatMap_append, owed, List.append_assoc, balance, ← List.append_assoc, owedBytes, owedBytes,
      List.flatMap_append, List.flatMap_singleton]

end

end AstraOS.Kernel
