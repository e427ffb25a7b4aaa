import AstraOS.Drivers.KeyboardQueue
import AstraOS.Drivers.Terminal
import AstraOS.Foundation.Polls
import AstraOS.Kernel.Console
import AstraOS.Kernel.IdleLoop

/-! The idle loop instruction by instruction, down to the single reads of the
UART's line status: what is typed appears on both consoles, in every interleaving
with the interrupts. -/

namespace AstraOS.Kernel
open AstraOS.Foundation AstraOS.Drivers

/-- Where the loop stands. The bytes of a report, or the character of an echo,
are on their way to the UART. -/
inductive EchoPoint where
  | reading
  | reporting (rest : List (BitVec 8))
  | polling
  | fetching
  | printing (c : BitVec 8)
  | sending (c : BitVec 8)
  | halting
  | halted
deriving DecidableEq

structure EchoState where
  ticks : BitVec 32
  lastSec : BitVec 32
  keyboard : KeyboardSystem
  vga : Vga
  serial : SerialPort
  point : EchoPoint

inductive EchoEvent where
  | irq0
  | irq1 (sc : BitVec 8)
  | irqOther
  | report (report : Option Report)
  | poll (found : Bool)
  | got (c : BitVec 8)
  | shown (c : BitVec 8)
  | sent (byte : BitVec 8)
  | halt
  | silent
deriving DecidableEq

/-- One turn of the loop in `serial_putchar`: the byte goes out if the UART is ready. -/
def trySend (uart : Uart) (byte : BitVec 8) (serial : SerialPort) : Bool × SerialPort :=
  let status := uart.lineStatus serial.statusReads
  let serial := { serial with statusReads := serial.statusReads + 1 }
  if status &&& lsrTxEmpty = 0#8 then (false, serial) else (true, serial.outb (serialCom1 + serialData) byte)

/-- What `serial_puts` sends for a report. -/
def reportBytes (report : Option Report) : List (BitVec 8) :=
  match report with
  | none => []
  | some report => withReturns report.line

/-- The next step of the loop; none while the processor is halted. -/
def mainStep (uart : Uart) (state : EchoState) : Option (EchoEvent × EchoState) :=
  match state.point with
  | .reading => do
    let (lastSec, report) ← uptimeReport state.ticks state.lastSec
    some (.report report, { state with lastSec := lastSec, point := .reporting (reportBytes report) })
  | .reporting [] => some (.silent, { state with point := .polling })
  | .reporting (byte :: rest) =>
    let (ready, serial) := trySend uart byte state.serial
    if ready then some (.sent byte, { state with serial := serial, point := .reporting rest })
    else some (.silent, { state with serial := serial })
  | .polling =>
    if keyboardPoll state.keyboard.kb ≠ 0#32 then some (.poll true, { state with point := .fetching })
    else some (.poll false, { state with point := .halting })
  | .fetching => do
    let (event, keyboard) ← getcharStep state.keyboard
    match event with
    | .returned c =>
      some (.got c, { state with keyboard := keyboard, point := if c ≠ 0#8 then .printing c else .halting })
    | _ => some (.silent, { state with keyboard := keyboard })
  | .printing c => do
    let vga ← vgaPutchar c (vgaSetColor .lightCyan .black state.vga)
    some (.shown c, { state with vga := vga, point := .sending c })
  | .sending c =>
    let (ready, serial) := trySend uart c state.serial
    if ready then some (.sent c, { state with serial := serial, point := .halting })
    else some (.silent, { state with serial := serial })
  | .halting => some (.halt, { state with point := .halted })
  | .halted => none

/-- Behind any interrupt a halted loop goes on. -/
def EchoPoint.wake : EchoPoint → EchoPoint
  | .halted => .reading
  | point => point

/-- Interrupts come at any time. -/
inductive EchoStep (uart : Uart) : EchoState → EchoEvent → EchoState → Prop where
  | irq0 {state : EchoState} :
      EchoStep uart state .irq0 { state with ticks := pitIrq0Handler state.ticks, point := state.point.wake }
  | irq1 {state : EchoState} {kb : Keyboard} {sc : BitVec 8} (handled : keyboardIrq1Handler sc state.keyboard.kb = some kb) :
      EchoStep uart state (.irq1 sc)
        { state with keyboard := { state.keyboard with kb := kb }, point := state.point.wake }
  | irqOther {state : EchoState} : EchoStep uart state .irqOther { state with point := state.point.wake }
  | main {state after : EchoState} {event : EchoEvent} (stepped : mainStep uart state = some (event, after)) :
      EchoStep uart state event after

theorem trySend_busy {uart : Uart} {serial : SerialPort} (busy : ¬ uart.Ready lsrTxEmpty serial.statusReads) (byte : BitVec 8) :
    trySend uart byte serial = (false, { serial with statusReads := serial.statusReads + 1 }) :=
  if_pos (not_not.mp busy)

theorem trySend_ready {uart : Uart} {serial : SerialPort} (ready : uart.Ready lsrTxEmpty serial.statusReads) (byte : BitVec 8) :
    trySend uart byte serial = (true,
      SerialPort.outb (serialCom1 + serialData) byte { serial with statusReads := serial.statusReads + 1 }) :=
  if_neg ready

/-- Everything that a step of the loop can do. -/
inductive MainMove (state : EchoState) : EchoEvent → EchoState → Prop where
  | report {lastSec : BitVec 32} {given : Option Report} (here : state.point = .reading)
      (reported : uptimeReport state.ticks state.lastSec = some (lastSec, given)) :
      MainMove state (.report given) { state with lastSec := lastSec, point := .reporting (reportBytes given) }
  | reported (here : state.point = .reporting []) : MainMove state .silent { state with point := .polling }
  | wait {reads : Nat} (away : state.point ≠ .fetching) :
      MainMove state .silent { state with serial := { state.serial with statusReads := reads } }
  | send {reads : Nat} {byte : BitVec 8} {rest : List (BitVec 8)} (here : state.point = .reporting (byte :: rest)) :
      MainMove state (.sent byte) { state with
        serial := SerialPort.outb (serialCom1 + serialData) byte { state.serial with statusReads := reads }
        point := .reporting rest }
  | found (here : state.point = .polling) (found : keyboardPoll state.keyboard.kb ≠ 0#32) :
      MainMove state (.poll true) { state with point := .fetching }
  | missed (here : state.point = .polling) (missed : keyboardPoll state.keyboard.kb = 0#32) :
      MainMove state (.poll false) { state with point := .halting }
  | compare {keyboard : KeyboardSystem} (here : state.point = .fetching)
      (fetched : getcharStep state.keyboard = some (.internal, keyboard)) :
      MainMove state .silent { state with keyboard := keyboard }
  | fetch {keyboard : KeyboardSystem} {c : BitVec 8} (here : state.point = .fetching)
      (fetched : getcharStep state.keyboard = some (.returned c, keyboard)) :
      MainMove state (.got c) { state with
        keyboard := keyboard
        point := if c ≠ 0#8 then .printing c else .halting }
  | draw {vga : Vga} {c : BitVec 8} (here : state.point = .printing c)
      (put : vgaPutchar c (vgaSetColor .lightCyan .black state.vga) = some vga) :
      MainMove state (.shown c) { state with vga := vga, point := .sending c }
  | echo {reads : Nat} {c : BitVec 8} (here : state.point = .sending c) :
      MainMove state (.sent c) { state with
        serial := SerialPort.outb (serialCom1 + serialData) c { state.serial with statusReads := reads }
        point := .halting }
  | halt (here : state.point = .halting) : MainMove state .halt { state with point := .halted }

theorem mainStep_moves {uart : Uart} {state after : EchoState} {event : EchoEvent}
    (stepped : mainStep uart state = some (event, after)) : MainMove state event after := by
  obtain ⟨ticks, lastSec, keyboard, vga, serial, point⟩ := state
  cases point with
  | reading =>
    obtain ⟨⟨sec, given⟩, reported, same⟩ := Option.bind_eq_some_iff.mp stepped
    cases same
    exact .report rfl reported
  | reporting bytes =>
    cases bytes with
    | nil =>
      cases stepped
      exact .reported rfl
    | cons byte rest =>
      by_cases ready : uart.Ready lsrTxEmpty serial.statusReads
      · simp only [mainStep, trySend_ready ready, if_true] at stepped
        cases stepped
        exact .send rfl
      · simp only [mainStep, trySend_busy ready] at stepped
        cases stepped
        exact .wait nofun
  | polling =>
    by_cases found : keyboardPoll keyboard.kb ≠ 0#32
    · simp only [mainStep, if_pos found] at stepped
      cases stepped
      exact .found rfl found
    · simp only [mainStep, if_neg found] at stepped
      cases stepped
      exact .missed rfl (not_not.mp found)
  | fetching =>
    obtain ⟨⟨taken, keyboard⟩, fetched, same⟩ := Option.bind_eq_some_iff.mp stepped
    rcases getcharStep_cases fetched with ⟨rfl, -⟩ | ⟨⟨c, rfl⟩, -⟩
    · cases same
      exact .compare rfl fetched
    · cases same
      exact .fetch rfl fetched
  | printing c =>
    obtain ⟨drawn, put, same⟩ := Option.bind_eq_some_iff.mp stepped
    cases same
    exact .draw rfl put
  | sending c =>
    by_cases ready : uart.Ready lsrTxEmpty serial.statusReads
    · simp only [mainStep, trySend_ready ready, if_true] at stepped
      cases stepped
      exact .echo rfl
    · simp only [mainStep, trySend_busy ready] at stepped
      cases stepped
      exact .wait nofun
  | halting =>
    cases stepped
    exact .halt rfl
  | halted => cases stepped

/-- What the keyboard queue sees. -/
def EchoEvent.keyboard? : EchoEvent → Option KeyboardEvent
  | .irq1 sc => some (.irq1 sc)
  | .got c => some (.returned c)
  | _ => none

def EchoEvent.shown? : EchoEvent → Option (BitVec 8)
  | .shown c => some c
  | _ => none

def EchoEvent.sent? : EchoEvent → Option (BitVec 8)
  | .sent byte => some byte
  | _ => none

/-- The bytes that an event commits the loop to send. -/
def EchoEvent.owed : EchoEvent → List (BitVec 8)
  | .report given => reportBytes given
  | .shown c => [c]
  | _ => []

def shownChars (events : List EchoEvent) : List (BitVec 8) := events.filterMap EchoEvent.shown?

def sentBytes (events : List EchoEvent) : List (BitVec 8) := events.filterMap EchoEvent.sent?

/-- The reports and the echoes in the order of the loop. -/
def owedBytes (events : List EchoEvent) : List (BitVec 8) := events.flatMap EchoEvent.owed

/-- Fetched, and not yet on the screen. -/
def EchoPoint.unshown : EchoPoint → List (BitVec 8)
  | .printing c => [c]
  | _ => []

def EchoPoint.unsent : EchoPoint → List (BitVec 8)
  | .reporting rest => rest
  | .sending c => [c]
  | _ => []

/-- A poll has found a character that `keyboard_getchar` has not returned yet. -/
def EchoPoint.fetches : EchoPoint → Nat
  | .fetching => 1
  | _ => 0

def EchoEvent.finds : EchoEvent → Nat
  | .poll true => 1
  | _ => 0

def EchoEvent.gets : EchoEvent → Nat
  | .got _ => 1
  | _ => 0

/-- The reference terminal behind the echoes. -/
def echoTerminal (terminal : Terminal) (text : List (BitVec 8)) : Terminal :=
  text.foldl (fun terminal c => (terminal.call (.setColor .lightCyan .black)).putchar c) terminal

/-- The state of the loop against the abstract queue and the history. -/
structure Echoes (start : EchoState) (terminal : Terminal) (events : List EchoEvent) (state : EchoState)
    (queue : CharQueue) : Prop where
  mirrors : Mirrors state.keyboard queue
  fetching : state.point = .fetching → queue.pending ≠ []
  idle : state.point ≠ .fetching → state.keyboard.point = .idle
  delivered : queue.delivered = shownChars events ++ state.point.unshown
  screen : Refines state.vga (echoTerminal terminal (shownChars events))
  owed : owedBytes events = sentBytes events ++ state.point.unsent
  line : state.serial.sent = start.serial.sent ++ sentBytes events
  returns : .got 0#8 ∉ events

section
variable {uart : Uart} {start state after : EchoState} {terminal : Terminal} {events : List EchoEvent}
variable {event : EchoEvent} {queue next : CharQueue}

/-- An interrupt adds nothing to the histories of the loop. -/
structure EchoEvent.Quiet (event : EchoEvent) : Prop where
  shown : event.shown? = none
  sent : event.sent? = none
  owed : event.owed = []
  got : event ≠ .got 0#8

theorem EchoEvent.Quiet.histories (quiet : event.Quiet) (events : List EchoEvent) :
    shownChars (events ++ [event]) = shownChars events ∧ sentBytes (events ++ [event]) = sentBytes events ∧
      owedBytes (events ++ [event]) = owedBytes events := by
  refine ⟨?_, ?_, ?_⟩
  · rw [shownChars, List.filterMap_append, List.filterMap_cons_none quiet.shown, List.filterMap_nil, List.append_nil]
    rfl
  · rw [sentBytes, List.filterMap_append, List.filterMap_cons_none quiet.sent, List.filterMap_nil, List.append_nil]
    rfl
  · rw [owedBytes, List.flatMap_append, List.flatMap_singleton, quiet.owed, List.append_nil]
    rfl

theorem EchoEvent.Quiet.returns (quiet : event.Quiet) (held : .got 0#8 ∉ events) : .got 0#8 ∉ events ++ [event] := by
  rw [List.mem_append, List.mem_singleton, not_or]
  exact ⟨held, Ne.symm quiet.got⟩

/-- A step without output that keeps what is in flight. -/
theorem Echoes.quiet (held : Echoes start terminal events state queue) (quiet : event.Quiet)
    (mirrors : Mirrors after.keyboard next) (fetching : after.point = .fetching → next.pending ≠ [])
    (idle : after.point ≠ .fetching → after.keyboard.point = .idle) (delivered : next.delivered = queue.delivered)
    (unshown : after.point.unshown = state.point.unshown) (unsent : after.point.unsent = state.point.unsent)
    (vga : after.vga = state.vga) (serial : after.serial.sent = state.serial.sent) :
    Echoes start terminal (events ++ [event]) after next := by
  obtain ⟨shown, sent, owed⟩ := quiet.histories events
  refine ⟨mirrors, fetching, idle, ?_, ?_, ?_, ?_, quiet.returns held.returns⟩
  · rw [delivered, held.delivered, shown, unshown]
  · rw [vga, shown]
    exact held.screen
  · rw [owed, sent, unsent]
    exact held.owed
  · rw [serial, sent]
    exact held.line

theorem wake_inFlight (point : EchoPoint) :
    point.wake.unshown = point.unshown ∧ point.wake.unsent = point.unsent ∧
      (point.wake = .fetching ↔ point = .fetching) := by
  cases point with
  | halted => exact ⟨rfl, rfl, by simp [EchoPoint.wake]⟩
  | _ => exact ⟨rfl, rfl, Iff.rfl⟩

/-- An interrupt that the keyboard queue does not see. -/
theorem Echoes.woken (held : Echoes start terminal events state queue) (quiet : event.Quiet)
    (keyboard : after.keyboard = state.keyboard) (point : after.point = state.point.wake) (vga : after.vga = state.vga)
    (serial : after.serial = state.serial) : Echoes start terminal (events ++ [event]) after queue := by
  obtain ⟨unshown, unsent, fetching⟩ := wake_inFlight state.point
  rw [← point] at unshown unsent fetching
  refine held.quiet quiet (keyboard ▸ held.mirrors) (fun now => held.fetching (fetching.mp now)) ?_ rfl unshown unsent
    vga (congrArg SerialPort.sent serial)
  intro elsewhere
  rw [keyboard]
  exact held.idle (mt fetching.mpr elsewhere)

theorem Echoes.irq1 {kb : Keyboard} (held : Echoes start terminal events state queue)
    (handled : keyboardIrq1Handler sc state.keyboard.kb = some kb) :
    ∃ next, QueueStep queue (.irq1 sc) next ∧ Echoes start terminal (events ++ [.irq1 sc])
      { state with keyboard := { state.keyboard with kb := kb }, point := state.point.wake } next := by
  obtain ⟨next, taken, mirrors⟩ := held.mirrors.irq1 handled
  obtain ⟨delivered, filled⟩ := QueueStep.irq1_pending taken
  obtain ⟨unshown, unsent, fetching⟩ := wake_inFlight state.point
  refine ⟨next, taken, held.quiet ⟨rfl, rfl, rfl, by simp⟩ mirrors ?_ ?_ delivered unshown unsent rfl rfl⟩
  · exact fun now => filled (held.fetching (fetching.mp now))
  · exact fun elsewhere => held.idle (mt fetching.mpr elsewhere)

/-- A step of the loop that does not touch the keyboard and puts nothing out. -/
theorem Echoes.stays (held : Echoes start terminal events state queue) (quiet : event.Quiet)
    (here : state.point ≠ .fetching) (there : after.point = .fetching → queue.pending ≠ [])
    (keyboard : after.keyboard = state.keyboard) (unshown : after.point.unshown = state.point.unshown)
    (unsent : after.point.unsent = state.point.unsent) (vga : after.vga = state.vga)
    (serial : after.serial.sent = state.serial.sent) : Echoes start terminal (events ++ [event]) after queue := by
  refine held.quiet quiet (keyboard ▸ held.mirrors) there ?_ rfl unshown unsent vga serial
  intro _
  rw [keyboard]
  exact held.idle here

/-- The first byte on its way has gone out. -/
theorem Echoes.sent {byte : BitVec 8} {rest : List (BitVec 8)} (held : Echoes start terminal events state queue)
    (here : state.point ≠ .fetching) (there : after.point ≠ .fetching) (keyboard : after.keyboard = state.keyboard)
    (unshown : after.point.unshown = state.point.unshown) (before : state.point.unsent = byte :: rest)
    (behind : after.point.unsent = rest) (vga : after.vga = state.vga)
    (line : after.serial.sent = state.serial.sent ++ [byte]) :
    Echoes start terminal (events ++ [.sent byte]) after queue := by
  have shown : shownChars (events ++ [.sent byte]) = shownChars events := by
    rw [shownChars, List.filterMap_append]
    exact List.append_nil _
  have owed : owedBytes (events ++ [.sent byte]) = owedBytes events := by
    rw [owedBytes, List.flatMap_append]
    exact List.append_nil _
  have sent : sentBytes (events ++ [.sent byte]) = sentBytes events ++ [byte] := by
    rw [sentBytes, List.filterMap_append]
    rfl
  refine ⟨keyboard ▸ held.mirrors, fun now => absurd now there, fun _ => ?_, ?_, ?_, ?_, ?_, ?_⟩
  · rw [keyboard]
    exact held.idle here
  · rw [shown, unshown]
    exact held.delivered
  · rw [vga, shown]
    exact held.screen
  · rw [owed, sent, behind, held.owed, before, List.append_assoc]
    rfl
  · rw [line, sent, held.line, List.append_assoc]
  · rw [List.mem_append, List.mem_singleton, not_or]
    exact ⟨held.returns, by simp⟩

theorem Echoes.report {lastSec : BitVec 32} (given : Option Report) (held : Echoes start terminal events state queue)
    (here : state.point = .reading) :
    Echoes start terminal (events ++ [.report given])
      { state with lastSec := lastSec, point := .reporting (reportBytes given) } queue := by
  have away : state.point ≠ .fetching := by simp [here]
  have shown : shownChars (events ++ [.report given]) = shownChars events := by
    rw [shownChars, List.filterMap_append]
    exact List.append_nil _
  have sent : sentBytes (events ++ [.report given]) = sentBytes events := by
    rw [sentBytes, List.filterMap_append]
    exact List.append_nil _
  have owed : owedBytes (events ++ [.report given]) = owedBytes events ++ reportBytes given := by
    rw [owedBytes, List.flatMap_append, List.flatMap_singleton]
    rfl
  have complete : owedBytes events = sentBytes events := by
    rw [held.owed, here]
    exact List.append_nil _
  refine ⟨held.mirrors, by simp, fun _ => held.idle away, ?_, ?_, ?_, ?_, ?_⟩
  · have count := held.delivered
    rw [here] at count
    rw [shown]
    exact count
  · rw [shown]
    exact held.screen
  · rw [owed, sent, complete]
    rfl
  · rw [sent]
    exact held.line
  · rw [List.mem_append, List.mem_singleton, not_or]
    exact ⟨held.returns, by simp⟩

/-- The character is on the screen, and the loop owes it to the line. -/
theorem Echoes.shown {vga : Vga} {c : BitVec 8} (held : Echoes start terminal events state queue)
    (here : state.point = .printing c) (drawn : vgaPutchar c (vgaSetColor .lightCyan .black state.vga) = some vga) :
    Echoes start terminal (events ++ [.shown c]) { state with vga := vga, point := .sending c } queue := by
  have away : state.point ≠ .fetching := by simp [here]
  have shown : shownChars (events ++ [.shown c]) = shownChars events ++ [c] := by
    rw [shownChars, List.filterMap_append]
    rfl
  have sent : sentBytes (events ++ [.shown c]) = sentBytes events := by
    rw [sentBytes, List.filterMap_append]
    exact List.append_nil _
  have owed : owedBytes (events ++ [.shown c]) = owedBytes events ++ [c] := by
    rw [owedBytes, List.flatMap_append, List.flatMap_singleton]
    rfl
  have complete : owedBytes events = sentBytes events := by
    rw [held.owed, here]
    exact List.append_nil _
  refine ⟨held.mirrors, by simp, fun _ => held.idle away, ?_, ?_, ?_, ?_, ?_⟩
  · have count := held.delivered
    rw [here] at count
    rw [shown, count]
    exact (List.append_nil _).symm
  · obtain ⟨colored, recolored, ready⟩ := held.screen.call (.setColor .lightCyan .black)
    cases recolored
    obtain ⟨written, put, screen⟩ := ready.putchar c
    cases put.symm.trans drawn
    rw [shown, echoTerminal, List.foldl_append]
    exact screen
  · rw [owed, sent, complete]
    rfl
  · rw [sent]
    exact held.line
  · rw [List.mem_append, List.mem_singleton, not_or]
    exact ⟨held.returns, by simp⟩

/-- The call is on its way, or its character is ready for the screen. -/
theorem Echoes.fetched {keyboard : KeyboardSystem} {taken : KeyboardEvent}
    (held : Echoes start terminal events state queue) (nonzero : ∀ c ∈ queue.pending, c ≠ 0#8)
    (here : state.point = .fetching) (stepped : getcharStep state.keyboard = some (taken, keyboard)) :
    (taken = .internal ∧ Echoes start terminal (events ++ [.silent]) { state with keyboard := keyboard } queue) ∨
      ∃ c rest, taken = .returned c ∧ c ≠ 0#8 ∧ queue.pending = c :: rest ∧
        Echoes start terminal (events ++ [.got c]) { state with keyboard := keyboard, point := .printing c }
          (queue.deliver c rest) := by
  have filled := held.fetching here
  rcases held.mirrors.fetch filled stepped with ⟨rfl, mirrors⟩ | ⟨c, rest, rfl, front, mirrors, idle⟩
  · exact .inl ⟨rfl, held.quiet ⟨rfl, rfl, rfl, by simp⟩ mirrors (fun _ => filled)
      (fun elsewhere => absurd here elsewhere) rfl rfl rfl rfl rfl⟩
  · have char : c ≠ 0#8 := nonzero c (front ▸ List.mem_cons_self)
    have quiet : EchoEvent.Quiet (.got c) := ⟨rfl, rfl, rfl, by simp [char]⟩
    obtain ⟨shown, sent, owed⟩ := quiet.histories events
    have delivered := held.delivered
    have balance := held.owed
    rw [here] at delivered balance
    refine .inr ⟨c, rest, rfl, char, front, mirrors, by simp, fun _ => idle, ?_, ?_, ?_, ?_,
      quiet.returns held.returns⟩
    · rw [shown, CharQueue.deliver, delivered, List.append_assoc]
      rfl
    · rw [shown]
      exact held.screen
    · rw [owed, sent]
      exact balance
    · rw [sent]
      exact held.line

/-- Each poll that finds a character is followed by its return, and only an empty queue is passed by. -/
structure Drains (state : EchoState) (event : EchoEvent) (after : EchoState) (queue : CharQueue) : Prop where
  count : after.point.fetches + event.gets = state.point.fetches + event.finds
  empty : event = .poll false → queue.pending = []

/-- How a step is seen by the queue, and what it keeps. -/
def EchoMatched (start : EchoState) (terminal : Terminal) (events : List EchoEvent) (state : EchoState)
    (queue : CharQueue) (event : EchoEvent) (after : EchoState) : Prop :=
  Drains state event after queue ∧
    ((event.keyboard? = none ∧ Echoes start terminal (events ++ [event]) after queue) ∨
      ∃ observed next, event.keyboard? = some observed ∧ QueueStep queue observed next ∧
        Echoes start terminal (events ++ [event]) after next)

theorem Echoes.main (held : Echoes start terminal events state queue) (nonzero : ∀ c ∈ queue.pending, c ≠ 0#8)
    (stepped : mainStep uart state = some (event, after)) :
    EchoMatched start terminal events state queue event after := by
  obtain ⟨ticks, lastSec, keyboard, vga, serial, point⟩ := state
  cases mainStep_moves stepped with
  | report here reported =>
    cases here
    exact ⟨⟨rfl, nofun⟩, .inl ⟨rfl, held.report _ rfl⟩⟩
  | reported here =>
    cases here
    exact ⟨⟨rfl, nofun⟩, .inl ⟨rfl, held.stays ⟨rfl, rfl, rfl, nofun⟩ nofun nofun rfl rfl rfl rfl rfl⟩⟩
  | wait away =>
    exact ⟨⟨rfl, nofun⟩, .inl ⟨rfl, held.stays ⟨rfl, rfl, rfl, nofun⟩ away (fun now => absurd now away)
      rfl rfl rfl rfl rfl⟩⟩
  | send here =>
    cases here
    exact ⟨⟨rfl, nofun⟩, .inl ⟨rfl, held.sent nofun nofun rfl rfl rfl rfl rfl (sent_outb _ _ _)⟩⟩
  | found here found =>
    cases here
    exact ⟨⟨rfl, nofun⟩, .inl ⟨rfl, held.stays ⟨rfl, rfl, rfl, nofun⟩ nofun
      (fun _ => held.mirrors.poll_iff.mp found) rfl rfl rfl rfl rfl⟩⟩
  | missed here missed =>
    cases here
    have empty : queue.pending = [] := by
      by_contra filled
      exact held.mirrors.poll_iff.mpr filled missed
    exact ⟨⟨rfl, fun _ => empty⟩, .inl ⟨rfl, held.stays ⟨rfl, rfl, rfl, nofun⟩ nofun nofun rfl rfl rfl rfl rfl⟩⟩
  | compare here fetched =>
    cases here
    rcases held.fetched nonzero rfl fetched with ⟨-, kept⟩ | ⟨c, rest, returned, -⟩
    · exact ⟨⟨rfl, nofun⟩, .inl ⟨rfl, kept⟩⟩
    · cases returned
  | fetch here fetched =>
    cases here
    rcases held.fetched nonzero rfl fetched with ⟨silent, -⟩ | ⟨c, rest, returned, char, front, kept⟩
    · cases silent
    · cases returned
      rw [if_pos char]
      exact ⟨⟨rfl, nofun⟩, .inr ⟨_, _, rfl, .deliver front, kept⟩⟩
  | draw here put =>
    cases here
    exact ⟨⟨rfl, nofun⟩, .inl ⟨rfl, held.shown rfl put⟩⟩
  | echo here =>
    cases here
    exact ⟨⟨rfl, nofun⟩, .inl ⟨rfl, held.sent nofun nofun rfl rfl rfl rfl rfl (sent_outb _ _ _)⟩⟩
  | halt here =>
    cases here
    exact ⟨⟨rfl, nofun⟩, .inl ⟨rfl, held.stays ⟨rfl, rfl, rfl, nofun⟩ nofun nofun rfl rfl rfl rfl rfl⟩⟩

theorem wake_fetches (point : EchoPoint) : point.wake.fetches = point.fetches := by
  cases point with
  | _ => rfl

theorem Echoes.step (held : Echoes start terminal events state queue) (nonzero : ∀ c ∈ queue.pending, c ≠ 0#8)
    (taken : EchoStep uart state event after) : EchoMatched start terminal events state queue event after := by
  cases taken with
  | irq0 => exact ⟨⟨wake_fetches _, nofun⟩, .inl ⟨rfl, held.woken ⟨rfl, rfl, rfl, nofun⟩ rfl rfl rfl rfl⟩⟩
  | irqOther => exact ⟨⟨wake_fetches _, nofun⟩, .inl ⟨rfl, held.woken ⟨rfl, rfl, rfl, nofun⟩ rfl rfl rfl rfl⟩⟩
  | irq1 handled =>
    obtain ⟨next, followed, kept⟩ := held.irq1 handled
    exact ⟨⟨wake_fetches _, nofun⟩, .inr ⟨_, next, rfl, followed, kept⟩⟩
  | main stepped => exact held.main nonzero stepped

end

/-- A queue in which characters wait from before the loop. -/
def waitingQueue (waiting : List (BitVec 8)) : CharQueue := ⟨waiting, waiting, []⟩

/-- How `kernel_main` comes to its loop. -/
structure LoopEntry (start : EchoState) (terminal : Terminal) (waiting : List (BitVec 8)) : Prop where
  reading : start.point = .reading
  idle : start.keyboard.point = .idle
  ring : RingHolds start.keyboard.kb.kbBuf start.keyboard.kb.kbHead.toNat start.keyboard.kb.kbTail.toNat waiting
  nonzero : ∀ c ∈ waiting, c ≠ 0#8
  screen : Refines start.vga terminal

section
variable {uart : Uart} {start state after middle : EchoState} {terminal : Terminal} {waiting : List (BitVec 8)}
variable {events later : List EchoEvent} {event : EchoEvent} {queue next : CharQueue}

theorem LoopEntry.echoes (entry : LoopEntry start terminal waiting) :
    Echoes start terminal [] start (waitingQueue waiting) := by
  obtain ⟨reading, idle, ring, -, screen⟩ := entry
  have away : start.point ≠ .fetching := by simp [reading]
  refine ⟨⟨ring, fun busy => absurd idle busy, ?_⟩, fun now => absurd now away, fun _ => idle, ?_, screen, ?_, ?_,
    by simp⟩
  · intro c loaded
    rw [idle] at loaded
    cases loaded
  · rw [reading]
    rfl
  · rw [reading]
    rfl
  · exact (List.append_nil _).symm

theorem LoopEntry.conserved (entry : LoopEntry start terminal waiting) {seen : List KeyboardEvent}
    (followed : Run QueueStep (waitingQueue waiting) seen queue) : Conserved seen queue := by
  refine followed.invariant Conserved ⟨rfl, rfl, entry.nonzero, ?_⟩ (fun _ _ _ _ kept taken => kept.step taken)
  exact Nat.le_of_lt_succ entry.ring.length_lt

/-- A run of the loop with the run of the queue that it follows. -/
structure Followed (start : EchoState) (terminal : Terminal) (waiting : List (BitVec 8)) (events : List EchoEvent)
    (state : EchoState) (queue : CharQueue) : Prop where
  run : Run QueueStep (waitingQueue waiting) (events.filterMap EchoEvent.keyboard?) queue
  echoes : Echoes start terminal events state queue

theorem Followed.step (entry : LoopEntry start terminal waiting) (held : Followed start terminal waiting events state queue)
    (taken : EchoStep uart state event after) : Drains state event after queue ∧
      ∃ next, Followed start terminal waiting (events ++ [event]) after next ∧
        ((event.keyboard? = none ∧ next = queue) ∨
          ∃ observed, event.keyboard? = some observed ∧ QueueStep queue observed next) := by
  have conserved := entry.conserved held.run
  obtain ⟨drains, ⟨unseen, kept⟩ | ⟨observed, next, visible, followed, kept⟩⟩ :=
    held.echoes.step conserved.nonzero taken
  · refine ⟨drains, queue, ⟨?_, kept⟩, .inl ⟨unseen, rfl⟩⟩
    rw [List.filterMap_append, List.filterMap_cons_none unseen, List.filterMap_nil, List.append_nil]
    exact held.run
  · refine ⟨drains, next, ⟨?_, kept⟩, .inr ⟨observed, visible, followed⟩⟩
    rw [List.filterMap_append, List.filterMap_cons_some visible, List.filterMap_nil]
    exact .next held.run followed

theorem LoopEntry.followed (entry : LoopEntry start terminal waiting) (run : Run (EchoStep uart) start events state) :
    ∃ queue, Followed start terminal waiting events state queue := by
  refine run.invariant (fun events state => ∃ queue, Followed start terminal waiting events state queue)
    ⟨_, .start, entry.echoes⟩ ?_
  intro earlier state label after held taken
  obtain ⟨queue, held⟩ := held
  obtain ⟨-, next, kept, -⟩ := held.step entry taken
  exact ⟨next, kept⟩

end

end AstraOS.Kernel
