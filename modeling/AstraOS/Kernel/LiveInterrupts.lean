import AstraOS.Drivers.KeyboardQueue
import AstraOS.Drivers.Pit
import AstraOS.Kernel.InterruptPath

/-! The drivers behind the interrupt machinery. Requests reach the chips, and
`irq_handler` finds the drivers' routines in its table; seen from the drivers,
this is the system in which their interrupts just happen. -/

namespace AstraOS.Kernel
open AstraOS.Foundation AstraOS.Drivers AstraOS.Interrupts

/-- Where the linker put the two routines. -/
structure DriverCode where
  pitIrq0 : BitVec 32
  keyboardIrq1 : BitVec 32
  apart : pitIrq0 ≠ keyboardIrq1

/-- Neither routine touches the interrupt controllers. -/
def DriverCode.pitRoutine (code : DriverCode) : IrqRoutine := ⟨code.pitIrq0, id, fun _ => rfl⟩

def DriverCode.keyboardRoutine (code : DriverCode) : IrqRoutine := ⟨code.keyboardIrq1, id, fun _ => rfl⟩

structure Live where
  irq : IrqState
  timer : Timer
  ticks : BitVec 32
  keyboard : KeyboardSystem

def irqClearMask (irq : BitVec 8) (state : IrqState) : IrqState := { state with pics := picClearMask irq state.pics }

def pitInit (code : DriverCode) (live : Live) : Live :=
  { live with
    timer := pitProgram live.timer
    irq := irqClearMask 0#8 (irqRegisterHandler 0#8 (some code.pitRoutine) live.irq) }

def keyboardInit (code : DriverCode) (live : Live) : Live :=
  { live with irq := irqClearMask 1#8 (irqRegisterHandler 1#8 (some code.keyboardRoutine) live.irq) }

/-- A call through the table runs the code at the routine's address; `sc` is what
the keyboard controller has in its data port. -/
def runRoutine (code : DriverCode) (sc : BitVec 8) (live : Live) (routine : IrqRoutine) : Option Live :=
  if routine.address = code.pitIrq0 then some { live with ticks := pitIrq0Handler live.ticks }
  else if routine.address = code.keyboardIrq1 then
    (keyboardIrq1Handler sc live.keyboard.kb).map fun kb => { live with keyboard := { live.keyboard with kb := kb } }
  else none

/-- An interrupt: the chips and `irq_handler`, with the routines it calls. -/
def interrupt (code : DriverCode) (event : IrqEvent) (sc : BitVec 8) (live : Live) : Option Live :=
  (irqEvent event live.irq).1.foldlM (runRoutine code sc) { live with irq := (irqEvent event live.irq).2 }

/-- The chips let a request through when its line is open, and the cascade with it. -/
def Passes (pics : Pics) (line : Fin 16) : Prop :=
  pics.masked line = false ∧ (8 ≤ line.val → pics.masked 2 = false)

inductive LiveEvent where
  | request (line : Fin 16) (sc : BitVec 8)
  | spurious7
  | spurious15
  | getchar (event : KeyboardEvent)
deriving DecidableEq

/-- Interrupts with the steps of `keyboard_getchar` between them. -/
inductive LiveStep (code : DriverCode) : Live → LiveEvent → Live → Prop where
  | request {live after line sc} (passes : Passes (Live.irq live).pics line)
      (served : interrupt code (.real line) sc live = some after) : LiveStep code live (.request line sc) after
  | spurious7 {live after} (served : interrupt code .spurious7 0#8 live = some after) :
      LiveStep code live .spurious7 after
  | spurious15 {live after} (served : interrupt code .spurious15 0#8 live = some after) :
      LiveStep code live .spurious15 after
  | getchar {live event keyboard} (stepped : getcharStep (Live.keyboard live) = some (event, keyboard)) :
      LiveStep code live (.getchar event) { live with keyboard := keyboard }

/-- What the keyboard driver sees of an event. -/
def LiveEvent.keyboard? : LiveEvent → Option KeyboardEvent
  | .request line sc => if line = 1 then some (.irq1 sc) else none
  | .spurious7 => none
  | .spurious15 => none
  | .getchar event => some event

/-- A request on the timer's line. -/
def LiveEvent.isTick : LiveEvent → Bool
  | .request line _ => line = 0
  | .spurious7 => false
  | .spurious15 => false
  | .getchar _ => false

/-- The table holds the two routines and nothing else, and the chips are wired. -/
structure Connected (code : DriverCode) (irq : IrqState) : Prop where
  wired : Wired irq.pics
  table : ∀ line : Fin 16, irq.irqHandlers[line.val]?.join =
    if line = 0 then some code.pitRoutine else if line = 1 then some code.keyboardRoutine else none

theorem Connected.tame {code : DriverCode} {irq : IrqState} (connected : Connected code irq) : IrqState.Tame irq := by
  intro number routine registered pics
  unfold IrqState.handler at registered
  split at registered
  · rename_i inside
    have entry := connected.table ⟨number.toNat, inside⟩
    rw [registered] at entry
    split at entry
    · cases entry
      exact ⟨rfl, rfl, rfl, rfl, rfl, rfl⟩
    · split at entry
      · cases entry
        exact ⟨rfl, rfl, rfl, rfl, rfl, rfl⟩
      · cases entry
  · cases registered

/-- What `irq_handler` leaves behind: the same connections, the same masks. -/
structure Stays (code : DriverCode) (before after : IrqState) : Prop where
  connected : Connected code after
  masked : ∀ line, after.pics.masked line = before.pics.masked line

theorem Connected.stays {code : DriverCode} {irq : IrqState} (connected : Connected code irq) {event : IrqEvent}
    {called : List IrqRoutine} (served : Served event irq called)
    (same : SameWiring irq.pics (irqEvent event irq).2.pics) : Stays code irq (irqEvent event irq).2 := by
  refine ⟨⟨same.wired connected.wired served.acknowledged, ?_⟩, same.masked⟩
  intro line
  rw [served.table]
  exact connected.table line

theorem Connected.real {code : DriverCode} {irq : IrqState} (connected : Connected code irq) (line : Fin 16) :
    Stays code irq (irqEvent (.real line) irq).2 ∧ (irqEvent (.real line) irq).1 =
      if line = 0 then [code.pitRoutine] else if line = 1 then [code.keyboardRoutine] else [] := by
  have served := served_real connected.wired.idle line
  have delivered : IrqState.Tame { irq with pics := irq.pics.deliver line } := connected.tame
  have same := (sameWiring_deliver line irq.pics).trans
    (sameWiring_irqHandler delivered (0x20#32 + BitVec.ofNat 32 line.val))
  refine ⟨connected.stays served same, ?_⟩
  rw [served.calls, connected.table line, apply_ite Option.toList, apply_ite Option.toList]
  rfl

theorem Connected.spurious7 {code : DriverCode} {irq : IrqState} (connected : Connected code irq) :
    Stays code irq (irqEvent .spurious7 irq).2 ∧ (irqEvent .spurious7 irq).1 = [] := by
  have served := served_spurious7 connected.wired.idle
  exact ⟨connected.stays served (sameWiring_irqHandler connected.tame 0x27#32), served.calls⟩

theorem Connected.spurious15 {code : DriverCode} {irq : IrqState} (connected : Connected code irq) :
    Stays code irq (irqEvent .spurious15 irq).2 ∧ (irqEvent .spurious15 irq).1 = [] := by
  have served := served_spurious15 connected.wired.idle
  have cascade : SameWiring irq.pics { irq.pics with master := irq.pics.master.accept 2 } :=
    sameWiring_deliver 2 irq.pics
  have delivered : IrqState.Tame { irq with pics := { irq.pics with master := irq.pics.master.accept 2 } } := connected.tame
  exact ⟨connected.stays served (cascade.trans (sameWiring_irqHandler delivered 0x2F#32)), served.calls⟩

section
variable {code : DriverCode} {live after : Live} {sc : BitVec 8}

theorem runRoutine_pit : runRoutine code sc live code.pitRoutine =
    some { live with ticks := pitIrq0Handler live.ticks } := if_pos rfl

theorem runRoutine_keyboard : runRoutine code sc live code.keyboardRoutine =
    (keyboardIrq1Handler sc live.keyboard.kb).map fun kb =>
      { live with keyboard := { live.keyboard with kb := kb } } :=
  (if_neg (Ne.symm code.apart)).trans (if_pos rfl)

/-- One interrupt, seen from the drivers. -/
structure Interrupted (code : DriverCode) (tick : Bool) (sc : Option (BitVec 8)) (live after : Live) : Prop where
  stays : Stays code live.irq after.irq
  timer : after.timer = live.timer
  ticks : after.ticks = if tick then pitIrq0Handler live.ticks else live.ticks
  keyboard : match sc with
    | none => after.keyboard = live.keyboard
    | some sc => ∃ kb, keyboardIrq1Handler sc live.keyboard.kb = some kb ∧
        after.keyboard = { live.keyboard with kb := kb }

theorem interrupted_real (connected : Connected code live.irq) {line : Fin 16}
    (served : interrupt code (.real line) sc live = some after) :
    Interrupted code (line = 0) (if line = 1 then some sc else none) live after := by
  obtain ⟨stays, calls⟩ := connected.real line
  rw [interrupt, calls] at served
  by_cases timer : line = 0
  · rw [if_pos timer, List.foldlM_cons, runRoutine_pit] at served
    cases served
    have other : line ≠ 1 := timer ▸ by decide
    rw [if_neg other]
    exact ⟨stays, rfl, (if_pos (decide_eq_true timer)).symm, rfl⟩
  by_cases keys : line = 1
  · rw [if_neg timer, if_pos keys, List.foldlM_cons, runRoutine_keyboard] at served
    obtain ⟨middle, handled, finished⟩ := Option.bind_eq_some_iff.mp served
    obtain ⟨kb, filled, rfl⟩ := Option.map_eq_some_iff.mp handled
    cases finished
    rw [if_pos keys, decide_eq_false timer]
    exact ⟨stays, rfl, rfl, kb, filled, rfl⟩
  · rw [if_neg timer, if_neg keys] at served
    cases served
    rw [if_neg keys, decide_eq_false timer]
    exact ⟨stays, rfl, rfl, rfl⟩

theorem interrupted_spurious {event : IrqEvent} (stays : Stays code live.irq (irqEvent event live.irq).2)
    (silent : (irqEvent event live.irq).1 = []) (served : interrupt code event sc live = some after) :
    Interrupted code false none live after := by
  rw [interrupt, silent] at served
  cases served
  exact ⟨stays, rfl, rfl, rfl⟩

/-- An interrupt is one step of the keyboard driver, or none. -/
theorem Interrupted.keyboardStep {tick : Bool} {sc : Option (BitVec 8)} (taken : Interrupted code tick sc live after) :
    match sc with
    | none => after.keyboard = live.keyboard
    | some sc => KeyboardStep live.keyboard (.irq1 sc) after.keyboard := by
  cases sc with
  | none => exact taken.keyboard
  | some sc =>
    obtain ⟨kb, handled, same⟩ := taken.keyboard
    show KeyboardStep live.keyboard (.irq1 sc) after.keyboard
    rw [same]
    exact .irq1 handled

end

/-- From the chips of the firmware through `interrupts_init`, `pit_init` and `keyboard_init`. -/
def bootLive (code : DriverCode) (firmware : Pics) (timer : Timer) (buf : Vector (BitVec 8) kbBufSize) : Live :=
  keyboardInit code (pitInit code
    ⟨⟨picClearMask 2#8 (picInit firmware), Vector.replicate numIrqs none⟩, timer, 0#32, ⟨⟨buf, 0#32, 0#32⟩, .idle⟩⟩)

/-- The lines that the kernel opens, or that the firmware had left open. -/
def Opened (firmware : Pics) (line : Fin 16) : Prop := line.val ≤ 2 ∨ firmware.masked line = false

theorem boot_connected (code : DriverCode) {firmware : Pics} (idle : firmware.Acknowledged) (timer : Timer)
    (buf : Vector (BitVec 8) kbBufSize) :
    Connected code (bootLive code firmware timer buf).irq ∧
      ∀ line, (bootLive code firmware timer buf).irq.pics.masked line = false ↔ Opened firmware line := by
  obtain ⟨-, -, masterReady, slaveReady, -, -⟩ := picInit_effect firmware
  obtain ⟨ready, masks⟩ := maskCalls_masked ⟨masterReady, slaveReady⟩ [.clearMask 2, .clearMask 0, .clearMask 1]
  have chips : (bootLive code firmware timer buf).irq.pics =
      [MaskCall.clearMask 2, .clearMask 0, .clearMask 1].foldl maskCall (picInit firmware) := rfl
  refine ⟨⟨⟨rfl, rfl, ready, idle⟩, ?_⟩, ?_⟩
  · intro line
    have timerLine := irqRegisterHandler_table 0#8 (some code.pitRoutine)
      ⟨picClearMask 2#8 (picInit firmware), Vector.replicate numIrqs none⟩ line
    have keyboardLine := irqRegisterHandler_table 1#8 (some code.keyboardRoutine) (irqClearMask 0#8
      (irqRegisterHandler 0#8 (some code.pitRoutine)
        ⟨picClearMask 2#8 (picInit firmware), Vector.replicate numIrqs none⟩)) line
    have empty : (Vector.replicate numIrqs (none : Option IrqRoutine))[line.val]? = some none :=
      (Vector.getElem?_replicate).trans (if_pos line.isLt)
    have table : (bootLive code firmware timer buf).irq.irqHandlers[line.val]? =
        if (1#8).toNat = line.val then some (some code.keyboardRoutine)
        else if (0#8).toNat = line.val then some (some code.pitRoutine) else some none :=
      keyboardLine.trans (if_congr Iff.rfl rfl (timerLine.trans (if_congr Iff.rfl rfl empty)))
    rw [table]
    by_cases first : line = 0
    · simp [first]
    by_cases second : line = 1
    · simp [second]
    · have notFirst : ¬ (0#8).toNat = line.val := fun same => first (Fin.ext same.symm)
      have notSecond : ¬ (1#8).toNat = line.val := fun same => second (Fin.ext same.symm)
      rw [if_neg notSecond, if_neg notFirst, if_neg first, if_neg second]
      rfl
  · intro line
    have start : (picInit firmware).masked line = firmware.masked line := rfl
    rw [chips, masks line, start, Opened]
    by_cases named : line.val ≤ 2
    · have cleared : lastCall line [.clearMask 2, .clearMask 0, .clearMask 1] = some (.clearMask line) := by
        clear start
        revert line
        decide
      simp [cleared, named]
    · have untouched : lastCall line [.clearMask 2, .clearMask 0, .clearMask 1] = none := by
        clear start
        revert line
        decide
      simp [untouched, named]

/-- What the drivers can rely on, at every point of every run. -/
structure DriversFollow (code : DriverCode) (firmware : Pics) (buf : Vector (BitVec 8) kbBufSize)
    (events : List LiveEvent) (live : Live) : Prop where
  ticks : live.ticks = BitVec.ofNat 32 (events.countP LiveEvent.isTick)
  keyboard : Run KeyboardStep ⟨⟨buf, 0#32, 0#32⟩, .idle⟩ (events.filterMap LiveEvent.keyboard?) live.keyboard
  reload : live.timer.reload = some pitDivisor
  acknowledged : live.irq.pics.Acknowledged
  opened : ∀ line, live.irq.pics.masked line = false ↔ Opened firmware line
  requests : ∀ line sc, .request line sc ∈ events → Opened firmware line
  served : ∀ line sc, Passes live.irq.pics line → ∃ after, LiveStep code live (.request line sc) after

section
variable {code : DriverCode} {firmware : Pics} {start live after : Live} {events : List LiveEvent}

/-- What one step does to all but the keyboard. -/
structure Follows (code : DriverCode) (firmware : Pics) (events : List LiveEvent) (live : Live) : Prop where
  connected : Connected code live.irq
  opened : ∀ line, live.irq.pics.masked line = false ↔ Opened firmware line
  ticks : live.ticks = BitVec.ofNat 32 (events.countP LiveEvent.isTick)
  reload : live.timer.reload = some pitDivisor
  requests : ∀ line sc, .request line sc ∈ events → Opened firmware line

/-- The interrupt that a step takes, if it takes one. -/
theorem LiveStep.interrupted (connected : Connected code live.irq) {event : LiveEvent} (taken : LiveStep code live event after) :
    (∃ sc, Interrupted code event.isTick sc live after ∧ event.keyboard? = sc.map KeyboardEvent.irq1) ∨
      ∃ inner, event = .getchar inner ∧ KeyboardStep live.keyboard inner after.keyboard ∧
        after = { live with keyboard := after.keyboard } := by
  cases taken with
  | @request _ line sc passes served =>
    refine .inl ⟨_, interrupted_real connected served, ?_⟩
    by_cases keys : line = 1
    · simp [LiveEvent.keyboard?, keys]
    · simp [LiveEvent.keyboard?, keys]
  | spurious7 served =>
    obtain ⟨stays, silent⟩ := connected.spurious7
    exact .inl ⟨none, interrupted_spurious stays silent served, rfl⟩
  | spurious15 served =>
    obtain ⟨stays, silent⟩ := connected.spurious15
    exact .inl ⟨none, interrupted_spurious stays silent served, rfl⟩
  | getchar stepped => exact .inr ⟨_, rfl, .getchar stepped, rfl⟩

theorem Follows.step (held : Follows code firmware events live) {event : LiveEvent}
    (taken : LiveStep code live event after) : Follows code firmware (events ++ [event]) after := by
  have requests : ∀ line sc, .request line sc ∈ events ++ [event] → Opened firmware line := by
    intro line sc member
    rcases List.mem_append.mp member with old | new
    · exact held.requests line sc old
    · cases List.mem_singleton.mp new
      cases taken with
      | request passes served => exact (held.opened line).mp passes.1
  have counted : (events ++ [event]).countP LiveEvent.isTick =
      events.countP LiveEvent.isTick + if event.isTick then 1 else 0 := by
    rw [List.countP_append, List.countP_singleton]
  rcases taken.interrupted held.connected with ⟨sc, interrupted, -⟩ | ⟨inner, rfl, -, same⟩
  · refine ⟨interrupted.stays.connected, ?_, ?_, ?_, requests⟩
    · intro line
      rw [interrupted.stays.masked]
      exact held.opened line
    · rw [interrupted.ticks, counted, held.ticks, pitIrq0Handler]
      split
      · exact (BitVec.ofNat_add _ 1).symm
      · rfl
    · rw [interrupted.timer]
      exact held.reload
  · rw [same]
    refine ⟨held.connected, held.opened, ?_, held.reload, requests⟩
    rw [counted]
    exact held.ticks

/-- The keyboard of a connected system takes its steps, and no others. -/
theorem follows_keyboard (run : Run (LiveStep code) start events live) (connected : Connected code start.irq) :
    Run KeyboardStep start.keyboard (events.filterMap LiveEvent.keyboard?) live.keyboard := by
  obtain ⟨system, followed, -, same⟩ := run.stutter
    (fun live system => Connected code live.irq ∧ live.keyboard = system) LiveEvent.keyboard? ⟨connected, rfl⟩ (by
      rintro state event next system ⟨wired, rfl⟩ taken
      rcases taken.interrupted wired with ⟨sc, interrupted, seen⟩ | ⟨inner, rfl, stepped, same⟩
      · cases sc with
        | none => exact .inl ⟨seen, interrupted.stays.connected, interrupted.keyboardStep⟩
        | some sc => exact .inr ⟨_, _, seen, interrupted.keyboardStep, interrupted.stays.connected, rfl⟩
      · refine .inr ⟨inner, _, rfl, stepped, ?_, rfl⟩
        rw [same]
        exact wired)
  exact same ▸ followed

end

/-- Every request on an open line can be served: the keyboard routine never faults. -/
theorem request_served {code : DriverCode} {live : Live} {queue : CharQueue} (connected : Connected code live.irq)
    (mirrors : Mirrors live.keyboard queue) {line : Fin 16} (sc : BitVec 8) (passes : Passes live.irq.pics line) :
    ∃ after, LiveStep code live (.request line sc) after := by
  obtain ⟨-, calls⟩ := connected.real line
  have handled : ∃ kb, keyboardIrq1Handler sc live.keyboard.kb = some kb := by
    rcases handler_cases sc mirrors.ring with ⟨same, -⟩ | ⟨-, -, kb, same, -⟩
    · exact ⟨_, same⟩
    · exact ⟨kb, same⟩
  obtain ⟨kb, filled⟩ := handled
  have served : ∃ after, interrupt code (.real line) sc live = some after := by
    rw [interrupt, calls]
    by_cases timer : line = 0
    · rw [if_pos timer, List.foldlM_cons, runRoutine_pit]
      exact ⟨_, rfl⟩
    by_cases keys : line = 1
    · rw [if_neg timer, if_pos keys, List.foldlM_cons, runRoutine_keyboard]
      simp only [filled]
      exact ⟨_, rfl⟩
    · rw [if_neg timer, if_neg keys]
      exact ⟨_, rfl⟩
  obtain ⟨after, ran⟩ := served
  exact ⟨after, .request passes ran⟩

/-- Over every run of requests, spurious interrupts and reads, from any firmware:
the tick counter has counted the requests on the timer's line, the keyboard has
taken exactly its own steps, no line is left in service or changes its mask, only
opened lines are ever heard, and every request that passes can be served. -/
theorem drivers_follow_interrupts (code : DriverCode) (firmware : Pics) (idle : firmware.Acknowledged) (timer : Timer)
    (buf : Vector (BitVec 8) kbBufSize) (run : Run (LiveStep code) (bootLive code firmware timer buf) events live) :
    DriversFollow code firmware buf events live := by
  obtain ⟨connected, opened⟩ := boot_connected code idle timer buf
  have follows := run.invariant (Follows code firmware)
    ⟨connected, opened, rfl, rfl, fun line sc member => (by cases member)⟩ (fun _ _ _ _ held taken => held.step taken)
  have keyboard := follows_keyboard run connected
  obtain ⟨queue, -, mirrors⟩ := keyboard.simulation Mirrors (.initial buf) (fun _ _ _ _ held taken => held.step taken)
  refine ⟨follows.ticks, keyboard, follows.reload, follows.connected.wired.idle, follows.opened, follows.requests, ?_⟩
  intro line sc passes
  exact request_served follows.connected mirrors sc passes

def driverCode : DriverCode := ⟨0x101800#32, 0x101900#32, by decide⟩

/-- A tick and a key. -/
theorem drivers_follow_interrupts_key :
    ∃ live, Run (LiveStep driverCode)
        (bootLive driverCode firmwarePics ⟨0#8, none, none⟩ (Vector.replicate kbBufSize 0#8))
        ([] ++ [.request 0 0#8] ++ [.request 1 0x1E#8]) live ∧
      DriversFollow driverCode firmwarePics (Vector.replicate kbBufSize 0#8)
        ([] ++ [.request 0 0#8] ++ [.request 1 0x1E#8]) live := by
  have follow {events : List LiveEvent} {live : Live} (run : Run (LiveStep driverCode)
      (bootLive driverCode firmwarePics ⟨0#8, none, none⟩ (Vector.replicate kbBufSize 0#8)) events live) :=
    drivers_follow_interrupts driverCode firmwarePics rfl ⟨0#8, none, none⟩ (Vector.replicate kbBufSize 0#8) run
  have opened (line : Fin 16) (low : line.val ≤ 2) {events : List LiveEvent} {live : Live}
      (held : DriversFollow driverCode firmwarePics (Vector.replicate kbBufSize 0#8) events live) :
      Passes live.irq.pics line :=
    ⟨(held.opened line).mpr (.inl low), fun high => absurd (high.trans low) (by decide)⟩
  have start := follow .start
  obtain ⟨ticked, tick⟩ := start.served 0 0#8 (opened 0 (by decide) start)
  have middle := follow (.next .start tick)
  obtain ⟨live, key⟩ := middle.served 1 0x1E#8 (opened 1 (by decide) middle)
  exact ⟨live, .next (.next .start tick) key, follow (.next (.next .start tick) key)⟩

end AstraOS.Kernel
