import AstraOS.Kernel.EchoLoop
import AstraOS.Kernel.Panic
import Mathlib.Data.Prod.Lex

/-! The idle loop on both consoles: what a user sees of it in every interleaving,
that each round ends, and how soon a key is echoed. -/

namespace AstraOS.Kernel
open AstraOS.Foundation AstraOS.Drivers

section
variable {uart : Uart} {start state after middle : EchoState} {terminal : Terminal} {waiting : List (BitVec 8)}
variable {events later : List EchoEvent} {event : EchoEvent} {queue next : CharQueue}

/-- The steps still ahead in the round, by the place in the loop. -/
def EchoPoint.phase : EchoPoint → Nat
  | .reading => 7
  | .reporting _ => 6
  | .polling => 5
  | .fetching => 4
  | .printing _ => 3
  | .sending _ => 2
  | .halting => 1
  | .halted => 0

/-- The work left at the place: bytes to send, or steps of `keyboard_getchar`. -/
def EchoState.work (state : EchoState) : Nat :=
  match state.point, state.keyboard.point with
  | .reporting rest, _ => rest.length
  | .fetching, .idle => 2
  | .fetching, .nonEmpty => 1
  | _, _ => 0

/-- The rank of a state, where the device is ready next at the answer `ready k` from `k` on. -/
def EchoState.rank (ready : Nat → Nat) (state : EchoState) : Nat ×ₗ Nat ×ₗ Nat :=
  toLex (state.point.phase, toLex (state.work, ready state.serial.statusReads - state.serial.statusReads))

theorem rank_phase {ready : Nat → Nat} (lower : after.point.phase < state.point.phase) :
    after.rank ready < state.rank ready := Prod.Lex.toLex_lt_toLex.mpr (.inl lower)

theorem rank_work {ready : Nat → Nat} (phase : after.point.phase = state.point.phase) (lower : after.work < state.work) :
    after.rank ready < state.rank ready :=
  Prod.Lex.toLex_lt_toLex.mpr (.inr ⟨phase, Prod.Lex.toLex_lt_toLex.mpr (.inl lower)⟩)

/-- A read of a busy line brings the next ready answer nearer. -/
theorem rank_wait {ready : Nat → Nat} (first : ∀ k, FirstReady (uart.Ready lsrTxEmpty) k (ready k))
    (busy : ¬ uart.Ready lsrTxEmpty state.serial.statusReads) (point : after.point = state.point)
    (keyboard : after.keyboard = state.keyboard) (reads : after.serial.statusReads = state.serial.statusReads + 1) :
    after.rank ready < state.rank ready := by
  have here := first state.serial.statusReads
  have same : ready after.serial.statusReads = ready state.serial.statusReads := by
    rw [reads]
    exact (first _).unique (here.later busy)
  have ahead : state.serial.statusReads < ready state.serial.statusReads :=
    Nat.lt_of_le_of_ne here.after fun now => busy (now ▸ here.here)
  have work : after.work = state.work := by rw [EchoState.work, EchoState.work, point, keyboard]
  refine Prod.Lex.toLex_lt_toLex.mpr (.inr ⟨congrArg EchoPoint.phase point, Prod.Lex.toLex_lt_toLex.mpr (.inr ⟨work, ?_⟩)⟩)
  rw [same, reads]
  exact Nat.sub_succ_lt_self _ _ ahead

/-- The loop has a step, and towards the halt if every wait for the device ends. -/
def Descends (uart : Uart) (state : EchoState) : Prop :=
  ∃ event after, mainStep uart state = some (event, after) ∧ ∀ ready : Nat → Nat,
    (∀ k, FirstReady (uart.Ready lsrTxEmpty) k (ready k)) → after.rank ready < state.rank ready

theorem Echoes.down_fetching (held : Echoes start terminal events state queue)
    (here : state.point = .fetching) : Descends uart state := by
  obtain ⟨ticks, lastSec, ⟨kb, place⟩, vga, serial, point⟩ := state
  cases here
  have filled : kb.kbTail ≠ kb.kbHead := held.fetching rfl ∘ held.mirrors.empty_iff.mp
  cases place with
  | idle =>
    have stepped : mainStep uart ⟨ticks, lastSec, ⟨kb, .idle⟩, vga, serial, .fetching⟩ =
        some (.silent, ⟨ticks, lastSec, ⟨kb, .nonEmpty⟩, vga, serial, .fetching⟩) := by
      simp only [mainStep, getcharStep, if_neg filled, Option.bind_eq_bind, Option.bind_some]
    exact ⟨_, _, stepped, fun _ _ => rank_work rfl (Nat.lt_succ_self 1)⟩
  | nonEmpty =>
    obtain ⟨c, read⟩ : ∃ c, kb.kbBuf[kb.kbTail.toNat]? = some c :=
      ⟨_, Vector.getElem?_eq_getElem held.mirrors.ring.tail_lt⟩
    have stepped : mainStep uart ⟨ticks, lastSec, ⟨kb, .nonEmpty⟩, vga, serial, .fetching⟩ =
        some (.silent, ⟨ticks, lastSec, ⟨kb, .loaded c⟩, vga, serial, .fetching⟩) := by
      simp only [mainStep, getcharStep, read, Option.bind_eq_bind, Option.bind_some]
    exact ⟨_, _, stepped, fun _ _ => rank_work rfl Nat.zero_lt_one⟩
  | loaded c =>
    refine ⟨_, _, rfl, fun _ _ => rank_phase ?_⟩
    by_cases char : c ≠ 0#8
    · rw [if_pos char]
      exact Nat.lt_succ_self 3
    · rw [if_neg char]
      exact Nat.lt_of_succ_le (Nat.le_add_left 2 2)

theorem Echoes.down (held : Echoes start terminal events state queue) (working : state.point ≠ .halted) :
    Descends uart state := by
  obtain ⟨ticks, lastSec, keyboard, vga, serial, point⟩ := state
  cases point with
  | reading =>
    obtain ⟨sec, given, reported⟩ : ∃ sec given, uptimeReport ticks lastSec = some (sec, given) :=
      ⟨_, _, uptimeReport_eq ticks lastSec⟩
    have stepped : mainStep uart ⟨ticks, lastSec, keyboard, vga, serial, .reading⟩ =
        some (.report given, ⟨ticks, sec, keyboard, vga, serial, .reporting (reportBytes given)⟩) := by
      simp only [mainStep, reported, Option.bind_eq_bind, Option.bind_some]
    exact ⟨_, _, stepped, fun _ _ => rank_phase (Nat.lt_succ_self 6)⟩
  | reporting bytes =>
    cases bytes with
    | nil => exact ⟨_, _, rfl, fun _ _ => rank_phase (Nat.lt_succ_self 5)⟩
    | cons byte rest =>
      by_cases now : uart.Ready lsrTxEmpty serial.statusReads
      · obtain ⟨written, tried⟩ : ∃ written, trySend uart byte serial = (true, written) := ⟨_, trySend_ready now byte⟩
        have stepped : mainStep uart ⟨ticks, lastSec, keyboard, vga, serial, .reporting (byte :: rest)⟩ =
            some (.sent byte, ⟨ticks, lastSec, keyboard, vga, written, .reporting rest⟩) := by
          simp only [mainStep, tried, if_true]
        exact ⟨_, _, stepped, fun _ _ => rank_work rfl (Nat.lt_succ_self rest.length)⟩
      · obtain ⟨waited, tried, reads⟩ : ∃ waited, trySend uart byte serial = (false, waited) ∧
            waited.statusReads = serial.statusReads + 1 := ⟨_, trySend_busy now byte, rfl⟩
        have stepped : mainStep uart ⟨ticks, lastSec, keyboard, vga, serial, .reporting (byte :: rest)⟩ =
            some (.silent, ⟨ticks, lastSec, keyboard, vga, waited, .reporting (byte :: rest)⟩) := by
          simp only [mainStep, tried, Bool.false_eq_true, if_false]
        exact ⟨_, _, stepped, fun _ first => rank_wait first now rfl rfl reads⟩
  | polling =>
    by_cases found : keyboardPoll keyboard.kb ≠ 0#32
    · exact ⟨_, _, if_pos found, fun _ _ => rank_phase (Nat.lt_succ_self 4)⟩
    · exact ⟨_, _, if_neg found, fun _ _ => rank_phase (Nat.lt_of_succ_le (Nat.le_add_left 2 3))⟩
  | fetching => exact held.down_fetching rfl
  | printing c =>
    obtain ⟨colored, recolored, prepared⟩ := held.screen.call (.setColor .lightCyan .black)
    cases recolored
    obtain ⟨drawn, put, -⟩ := prepared.putchar c
    have stepped : mainStep uart ⟨ticks, lastSec, keyboard, vga, serial, .printing c⟩ =
        some (.shown c, ⟨ticks, lastSec, keyboard, drawn, serial, .sending c⟩) := by
      simp only [mainStep, put, Option.bind_eq_bind, Option.bind_some]
    exact ⟨_, _, stepped, fun _ _ => rank_phase (Nat.lt_succ_self 2)⟩
  | sending c =>
    by_cases now : uart.Ready lsrTxEmpty serial.statusReads
    · obtain ⟨written, tried⟩ : ∃ written, trySend uart c serial = (true, written) := ⟨_, trySend_ready now c⟩
      have stepped : mainStep uart ⟨ticks, lastSec, keyboard, vga, serial, .sending c⟩ =
          some (.sent c, ⟨ticks, lastSec, keyboard, vga, written, .halting⟩) := by
        simp only [mainStep, tried, if_true]
      exact ⟨_, _, stepped, fun _ _ => rank_phase (Nat.lt_succ_self 1)⟩
    · obtain ⟨waited, tried, reads⟩ : ∃ waited, trySend uart c serial = (false, waited) ∧
          waited.statusReads = serial.statusReads + 1 := ⟨_, trySend_busy now c, rfl⟩
      have stepped : mainStep uart ⟨ticks, lastSec, keyboard, vga, serial, .sending c⟩ =
          some (.silent, ⟨ticks, lastSec, keyboard, vga, waited, .sending c⟩) := by
        simp only [mainStep, tried, Bool.false_eq_true, if_false]
      exact ⟨_, _, stepped, fun _ first => rank_wait first now rfl rfl reads⟩
  | halting => exact ⟨_, _, rfl, fun _ _ => rank_phase Nat.zero_lt_one⟩
  | halted => exact absurd rfl working

/-- The steps of the loop alone, with no interrupt. -/
def MainRun (uart : Uart) : EchoState → List EchoEvent → EchoState → Prop :=
  Run fun state event after => mainStep uart state = some (event, after)

theorem MainRun.steps (run : MainRun uart state later after) : Run (EchoStep uart) state later after := by
  induction run with
  | start => exact .start
  | next earlier taken ih => exact .next ih (.main taken)

/-- Where every wait for the UART ends, the loop comes to its `hlt` from every
state that it can reach: it can neither fault nor spin. -/
theorem echo_round_ends (entry : LoopEntry start terminal waiting) (run : Run (EchoStep uart) start events state)
    (recurs : ∀ k, ∃ j, FirstReady (uart.Ready lsrTxEmpty) k j) :
    ∃ later finish, MainRun uart state later finish ∧ finish.point = .halted := by
  choose ready first using recurs
  refine Run.reaches (EchoState.rank ready) (fun state => ∃ events, Run (EchoStep uart) start events state)
    (fun state => state.point = .halted) ?_ state ⟨events, run⟩
  intro state reachable working
  obtain ⟨events, run⟩ := reachable
  obtain ⟨queue, held⟩ := entry.followed run
  obtain ⟨event, after, stepped, lower⟩ := held.echoes.down working
  exact ⟨event, after, stepped, ⟨_, run.next (.main stepped)⟩, lower ready first⟩

theorem Echoes.proceeds (held : Echoes start terminal events state queue) :
    mainStep uart state = none ↔ state.point = .halted := by
  constructor
  · intro stuck
    by_contra working
    obtain ⟨event, after, stepped, -⟩ := held.down working
    exact Option.some_ne_none _ (stepped.symm.trans stuck)
  · intro here
    rw [mainStep, here]

/-- The polls of the keyboard, one in each round. -/
def polls (events : List EchoEvent) : Nat := events.countP fun event => event matches .poll _

/-- So many polls later, the keys accepted before have been fetched. -/
structure Draining (before : CharQueue) (later : List EchoEvent) (state : EchoState) (queue : CharQueue) : Prop where
  accepted : before.appended <+: queue.appended
  fetched : min before.appended.length (before.delivered.length + polls later) ≤
    queue.delivered.length + state.point.fetches

/-- A return of `keyboard_getchar` is the only thing that delivers. -/
theorem delivered_gets (char : event ≠ .got 0#8) (seen : (event.keyboard? = none ∧ next = queue) ∨
    ∃ observed, event.keyboard? = some observed ∧ QueueStep queue observed next) :
    next.delivered.length = queue.delivered.length + event.gets := by
  rcases seen with ⟨unseen, rfl⟩ | ⟨observed, visible, taken⟩
  · cases event with
    | got c => cases unseen
    | _ => rfl
  · cases event with
    | irq1 sc =>
      cases visible
      exact congrArg List.length taken.irq1_pending.1
    | got c =>
      cases visible
      cases taken with
      | nothing empty => exact absurd rfl char
      | deliver front => exact List.length_append
    | _ => cases visible

theorem Draining.step {before : CharQueue} (held : Draining before later state queue)
    (split : queue.appended = queue.delivered ++ queue.pending) (drains : Drains state event after queue)
    (grown : queue.appended <+: next.appended)
    (delivered : next.delivered.length = queue.delivered.length + event.gets) :
    Draining before (later ++ [event]) after next := by
  obtain ⟨accepted, fetched⟩ := held
  obtain ⟨count, empty⟩ := drains
  refine ⟨accepted.trans grown, ?_⟩
  have polled : polls (later ++ [event]) = polls later + polls [event] := List.countP_append
  by_cases passed : event = .poll false
  · have all : before.appended.length ≤ queue.delivered.length := by
      rw [split, empty passed, List.append_nil] at accepted
      exact accepted.length_le
    omega
  · have one : polls [event] = event.finds := by
      cases event with
      | poll found =>
        cases found with
        | false => exact absurd rfl passed
        | true => rfl
      | _ => rfl
    omega

/-- Behind as many rounds as there are keys waiting, all of them are on the
screen, whatever else is typed and whenever the interrupts come. -/
theorem echo_drains (entry : LoopEntry start terminal waiting) (run : Run (EchoStep uart) start events middle)
    (goes : Run (EchoStep uart) middle later state) (halted : state.point = .halted) :
    ∃ queue, Run QueueStep (waitingQueue waiting) (events.filterMap EchoEvent.keyboard?) queue ∧
      (queue.pending.length ≤ polls later → queue.appended <+: shownChars (events ++ later)) := by
  obtain ⟨before, held⟩ := entry.followed run
  have initial : Draining before [] middle before :=
    ⟨List.prefix_rfl, (Nat.min_le_right _ _).trans (Nat.le_add_right _ _)⟩
  obtain ⟨queue, kept, drained⟩ := goes.invariant (fun later state => ∃ queue,
      Followed start terminal waiting (events ++ later) state queue ∧ Draining before later state queue)
    ⟨before, (List.append_nil events).symm ▸ held, initial⟩ fun earlier state label after ⟨queue, kept, drained⟩ taken => by
      obtain ⟨drains, next, follows, seen⟩ := kept.step entry taken
      have char : label ≠ .got 0#8 := fun same => follows.echoes.returns (by simp [same])
      have grown : queue.appended <+: next.appended := by
        rcases seen with ⟨-, rfl⟩ | ⟨_, -, followed⟩
        · exact List.prefix_rfl
        · exact followed.accepts
      exact ⟨next, List.append_assoc .. ▸ follows,
        drained.step (entry.conserved kept.run).split drains grown (delivered_gets char seen)⟩
  refine ⟨before, held.run, ?_⟩
  intro enough
  have split := (entry.conserved kept.run).split
  have first := congrArg List.length (entry.conserved held.run).split
  have delivered : queue.delivered = shownChars (events ++ later) := by
    rw [kept.echoes.delivered, halted]
    exact List.append_nil _
  have fetched := drained.fetched
  have still : state.point.fetches = 0 := by
    rw [halted]
    rfl
  rw [List.length_append] at first
  have reached : before.appended.length ≤ queue.delivered.length := by omega
  rw [← delivered]
  exact List.prefix_of_prefix_length_le drained.accepted (split ▸ List.prefix_append _ _) reached

end

def loopAt (vga : Vga) (keyboard : KeyboardSystem) (point : EchoPoint) : EchoState :=
  ⟨0#32, 0#32, keyboard, vga, blankConsole.serial, point⟩

/-- The loop behind a cleared screen. -/
def quietLoop (vga : Vga) (kb : Keyboard) : EchoState := loopAt vga ⟨kb, .idle⟩ .reading

theorem quietLoop_entry : ∃ vga terminal, LoopEntry (quietLoop vga resetKeyboard) terminal [] := by
  obtain ⟨vga, terminal, held⟩ := cleared_drawn blankConsole.serial
  exact ⟨vga, terminal, rfl, rfl, .empty (Nat.zero_lt_succ 63), fun _ member => absurd member List.not_mem_nil, held⟩

/-- The ring behind an interrupt, and behind the fetch of its character. -/
def keyHeld : Keyboard := ⟨(Vector.replicate kbBufSize 0#8).set 0 0x61#8, 1#32, 0#32⟩

def keyTaken : Keyboard := ⟨(Vector.replicate kbBufSize 0#8).set 0 0x61#8, 1#32, 1#32⟩

/-- One round that finds a key. -/
def keyRound : List EchoEvent :=
  [.report none, .silent, .poll true, .silent, .silent, .got 0x61#8, .shown 0x61#8, .sent 0x61#8, .halt]

theorem quietLoop_typed (vga : Vga) :
    Run (EchoStep promptUart) (quietLoop vga resetKeyboard) [.irq1 0x1E#8] (quietLoop vga keyHeld) := by
  have typed : keyboardIrq1Handler 0x1E#8 resetKeyboard = some keyHeld := rfl
  exact .next .start (.irq1 typed)

theorem keyRound_run {vga : Vga} {terminal : Terminal} (held : Refines vga terminal) :
    ∃ state, MainRun promptUart (quietLoop vga keyHeld) keyRound state ∧ state.point = .halted := by
  obtain ⟨colored, recolored, prepared⟩ := held.call (.setColor .lightCyan .black)
  cases recolored
  obtain ⟨drawn, put, -⟩ := prepared.putchar 0x61#8
  have reported : uptimeReport 0#32 0#32 = some (0#32, none) := uptimeReport_eq _ _
  have first : mainStep promptUart (quietLoop vga keyHeld) =
      some (.report none, loopAt vga ⟨keyHeld, .idle⟩ (.reporting [])) := by
    simp only [mainStep, quietLoop, loopAt, reported, Option.bind_eq_bind, Option.bind_some, reportBytes]
  have fetched : mainStep promptUart (loopAt vga ⟨keyHeld, .loaded 0x61#8⟩ .fetching) =
      some (.got 0x61#8, loopAt vga ⟨keyTaken, .idle⟩ (.printing 0x61#8)) := by
    have char : (0x61#8 : BitVec 8) ≠ 0#8 := by decide
    have advanced : (0#32 + 1#32) &&& kbBufMask = 1#32 := rfl
    simp only [mainStep, loopAt, getcharStep, keyHeld, keyTaken, Option.bind_eq_bind, Option.bind_some, if_pos char,
      advanced]
  have loaded : mainStep promptUart (loopAt vga ⟨keyHeld, .nonEmpty⟩ .fetching) =
      some (.silent, loopAt vga ⟨keyHeld, .loaded 0x61#8⟩ .fetching) := rfl
  have shown : mainStep promptUart (loopAt vga ⟨keyTaken, .idle⟩ (.printing 0x61#8)) =
      some (.shown 0x61#8, loopAt drawn ⟨keyTaken, .idle⟩ (.sending 0x61#8)) := by
    simp only [mainStep, loopAt, put, Option.bind_eq_bind, Option.bind_some]
  have polled : MainRun promptUart (quietLoop vga keyHeld) [.report none, .silent, .poll true, .silent]
      (loopAt vga ⟨keyHeld, .nonEmpty⟩ .fetching) := .next (.next (.next (.next .start first) rfl) rfl) rfl
  have ready : promptUart.Ready lsrTxEmpty blankConsole.serial.statusReads := by decide
  obtain ⟨written, tried⟩ : ∃ written, trySend promptUart 0x61#8 blankConsole.serial = (true, written) :=
    ⟨_, trySend_ready ready _⟩
  have sent : mainStep promptUart (loopAt drawn ⟨keyTaken, .idle⟩ (.sending 0x61#8)) =
      some (.sent 0x61#8, ⟨0#32, 0#32, ⟨keyTaken, .idle⟩, drawn, written, .halting⟩) := by
    simp only [mainStep, loopAt, tried, if_true]
  have halted : mainStep promptUart ⟨0#32, 0#32, ⟨keyTaken, .idle⟩, drawn, written, .halting⟩ =
      some (.halt, ⟨0#32, 0#32, ⟨keyTaken, .idle⟩, drawn, written, .halted⟩) := rfl
  exact ⟨_, .next (.next (.next (.next (.next polled loaded) fetched) shown) sent) halted, rfl⟩

theorem echo_drains_key : ∃ start terminal middle state queue,
    LoopEntry start terminal [] ∧ Run (EchoStep promptUart) start [.irq1 0x1E#8] middle ∧
      Run (EchoStep promptUart) middle keyRound state ∧
      Run QueueStep (waitingQueue []) [.irq1 0x1E#8] queue ∧
      (queue.pending.length ≤ 1 → queue.appended <+: [0x61#8]) := by
  obtain ⟨vga, terminal, entry⟩ := quietLoop_entry
  obtain ⟨state, round, halted⟩ := keyRound_run entry.screen
  obtain ⟨queue, followed, drained⟩ := echo_drains entry (quietLoop_typed vga) round.steps halted
  exact ⟨_, terminal, _, state, queue, entry, quietLoop_typed vga, round.steps, followed, drained⟩

theorem echo_round_ends_prompt : ∃ start terminal middle later finish,
    LoopEntry start terminal [] ∧ Run (EchoStep promptUart) start [.irq1 0x1E#8] middle ∧
      MainRun promptUart middle later finish ∧ finish.point = .halted := by
  obtain ⟨vga, terminal, entry⟩ := quietLoop_entry
  have prompt (k : Nat) : ∃ j, FirstReady (promptUart.Ready lsrTxEmpty) k j := by
    cases waits_prompt 1 k with
    | wait first rest => exact ⟨_, first⟩
  obtain ⟨later, finish, round, halted⟩ := echo_round_ends entry (quietLoop_typed vga) prompt
  exact ⟨_, terminal, _, later, finish, entry, quietLoop_typed vga, round, halted⟩

end AstraOS.Kernel
