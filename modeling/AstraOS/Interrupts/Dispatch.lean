import AstraOS.Foundation.Run
import AstraOS.Interrupts.Pic

/-! Registration and dispatch of hardware interrupts. Interrupt gates keep the
processor from taking another interrupt inside `irq_handler`, so a delivery and
its handler are one step. -/

namespace AstraOS.Interrupts
open AstraOS.Foundation

/-- A routine that a driver installs: the address of its code and what the code
does to the chips. Acknowledging is the business of `irq_handler` alone. -/
structure IrqRoutine where
  address : BitVec 32
  body : Pics → Pics
  quiet : ∀ pics, (body pics).inService = pics.inService

def numIrqs : Nat := 16

structure IrqState where
  pics : Pics
  irqHandlers : Vector (Option IrqRoutine) numIrqs

/-- A null pointer is `none`. -/
def irqRegisterHandler (irq : BitVec 8) (handler : Option IrqRoutine) (state : IrqState) : IrqState :=
  if irq.toNat < numIrqs
  then { state with irqHandlers := state.irqHandlers.setIfInBounds irq.toNat handler } else state

/-- The registered routine of a line, if any. -/
def IrqState.handler (state : IrqState) (irq : BitVec 8) : Option IrqRoutine :=
  if irq.toNat < numIrqs then state.irqHandlers[irq.toNat]?.join else none

/-- The end of `irq_handler`: the routine and the acknowledgement. -/
def irqDispatch (irq : BitVec 8) (state : IrqState) : List IrqRoutine × IrqState :=
  match state.handler irq with
  | some routine => ([routine], { state with pics := picSendEoi irq (routine.body state.pics) })
  | none => ([], { state with pics := picSendEoi irq state.pics })

/-- `irq_handler` on a vector, with the routines that it calls. -/
def irqHandler (intNo : BitVec 32) (state : IrqState) : List IrqRoutine × IrqState :=
  let irq := (intNo - picMasterOffset.setWidth 32).setWidth 8
  if irq = 7#8 then
    let (isr, pics) := picReadIsr state.pics
    if isr.setWidth 32 &&& (1#32 <<< 7) = 0#32 then ([], { state with pics := pics })
    else irqDispatch irq { state with pics := pics }
  else if irq = 15#8 then
    let (isr, pics) := picReadIsr state.pics
    if isr.setWidth 32 &&& (1#32 <<< 15) = 0#32 then ([], { state with pics := picSendEoi 2#8 pics })
    else irqDispatch irq { state with pics := pics }
  else irqDispatch irq state

/-- A real request on a line of either chip, through the cascade for the slave. -/
def Pics.deliver (line : Fin 16) (pics : Pics) : Pics :=
  if line.val < 8 then { pics with master := pics.master.accept line.val }
  else ⟨pics.master.accept 2, pics.slave.accept (line.val - 8)⟩

inductive IrqEvent where
  | register (irq : BitVec 8) (handler : Option IrqRoutine)
  | real (line : Fin 16)
  | spurious7
  | spurious15

/-- A call or a delivery with the handler that follows it. -/
def irqEvent (event : IrqEvent) (state : IrqState) : List IrqRoutine × IrqState :=
  match event with
  | .register irq handler => ([], irqRegisterHandler irq handler state)
  | .real line => irqHandler (0x20#32 + BitVec.ofNat 32 line.val) { state with pics := state.pics.deliver line }
  | .spurious7 => irqHandler 0x27#32 state
  | .spurious15 => irqHandler 0x2F#32 { state with pics := { state.pics with master := state.pics.master.accept 2 } }

/-- A step labelled with its event and the routines it called. -/
def IrqStep (state : IrqState) (label : IrqEvent × List IrqRoutine) (after : IrqState) : Prop :=
  irqEvent label.1 state = (label.2, after)

/-- The last registration for a line, oldest event first. -/
def lastRegistered (line : Nat) (events : List IrqEvent) : Option IrqRoutine :=
  events.foldl (fun current event => match event with
    | .register irq handler => if irq.toNat = line then handler else current
    | .real _ => current
    | .spurious7 => current
    | .spurious15 => current) none

/-- A real interrupt calls the routine last registered for its line, once;
nothing else calls any. -/
def expectedCalls (earlier : List IrqEvent) : IrqEvent → List IrqRoutine
  | .real line => (lastRegistered line earlier).toList
  | .register _ _ => []
  | .spurious7 => []
  | .spurious15 => []

/-- No line is in service on either chip. -/
def Pics.Acknowledged (pics : Pics) : Prop := pics.inService = (0#8, 0#8)

theorem irqDispatch_effect (irq : BitVec 8) (state : IrqState) :
    (irqDispatch irq state).1 = (state.handler irq).toList ∧
    (irqDispatch irq state).2.irqHandlers = state.irqHandlers ∧
    (irqDispatch irq state).2.pics.inService = (picSendEoi irq state.pics).inService := by
  unfold irqDispatch
  cases registered : state.handler irq with
  | none => exact ⟨rfl, rfl, rfl⟩
  | some routine =>
    have same := routine.quiet state.pics
    refine ⟨rfl, rfl, ?_⟩
    simp only [Pics.inService, Prod.mk.injEq] at same
    rw [picSendEoi_inService, picSendEoi_inService, same.1, same.2]

/-- What a delivery puts in service on idle chips. -/
def requested (line : Fin 16) : BitVec 8 × BitVec 8 :=
  if line.val < 8 then (1#8 <<< line.val, 0#8) else (1#8 <<< 2, 1#8 <<< (line.val - 8))

theorem Pics.Acknowledged.deliver {pics : Pics} (idle : pics.Acknowledged) (line : Fin 16) :
    (pics.deliver line).inService = requested line := by
  have master : pics.master.isr = 0#8 := congrArg Prod.fst idle
  have slave : pics.slave.isr = 0#8 := congrArg Prod.snd idle
  unfold Pics.deliver requested
  split
  · simp [Pics.inService, Chip.accept, master, slave]
  · simp [Pics.inService, Chip.accept, master, slave]

/-- One acknowledgement for a master line, two for a slave line. -/
theorem requested_acknowledged {pics : Pics} (line : Fin 16) (taken : pics.inService = requested line) :
    (picSendEoi (BitVec.ofNat 8 line.val) pics).Acknowledged := by
  unfold Pics.Acknowledged
  have master : pics.master.isr = (requested line).1 := congrArg Prod.fst taken
  have slave : pics.slave.isr = (requested line).2 := congrArg Prod.snd taken
  rw [picSendEoi_inService, master, slave]
  clear taken master slave
  revert line
  decide

/-- A line in service passes the check for spurious interrupts. -/
theorem irqHandler_genuine (state : IrqState) (line : Fin 16)
    (taken : state.pics.inService = requested line) :
    ∃ pics, pics.inService = requested line ∧
      irqHandler (0x20#32 + BitVec.ofNat 32 line.val) state =
        irqDispatch (BitVec.ofNat 8 line.val) { state with pics := pics } := by
  have number : (0x20#32 + BitVec.ofNat 32 line.val - picMasterOffset.setWidth 32).setWidth 8 =
      BitVec.ofNat 8 line.val := by
    clear taken
    revert line
    decide
  have master : state.pics.master.isr = (requested line).1 := congrArg Prod.fst taken
  have slave : state.pics.slave.isr = (requested line).2 := congrArg Prod.snd taken
  unfold irqHandler
  rw [number]
  by_cases seven : line = 7
  · subst seven
    refine ⟨(picReadIsr state.pics).2, taken, ?_⟩
    have set : (picReadIsr state.pics).1.setWidth 32 &&& (1#32 <<< 7) ≠ 0#32 := by
      rw [picReadIsr_value, master, slave]
      decide
    exact if_neg set
  by_cases fifteen : line = 15
  · subst fifteen
    refine ⟨(picReadIsr state.pics).2, taken, ?_⟩
    have set : (picReadIsr state.pics).1.setWidth 32 &&& (1#32 <<< 15) ≠ 0#32 := by
      rw [picReadIsr_value, master, slave]
      decide
    exact if_neg set
  · refine ⟨state.pics, taken, ?_⟩
    have other : BitVec.ofNat 8 line.val ≠ 7#8 ∧ BitVec.ofNat 8 line.val ≠ 15#8 := by
      clear taken number master slave
      revert line
      decide
    exact (if_neg other.1).trans (if_neg other.2)

/-- A delivery that calls these routines, leaves the table alone and ends with
nothing in service. -/
structure Served (event : IrqEvent) (state : IrqState) (called : List IrqRoutine) : Prop where
  calls : (irqEvent event state).1 = called
  table : (irqEvent event state).2.irqHandlers = state.irqHandlers
  acknowledged : (irqEvent event state).2.pics.Acknowledged

theorem served_real {state : IrqState} (idle : state.pics.Acknowledged) (line : Fin 16) :
    Served (.real line) state state.irqHandlers[line.val]?.join.toList := by
  obtain ⟨pics, taken, same⟩ :=
    irqHandler_genuine { state with pics := state.pics.deliver line } line (idle.deliver line)
  obtain ⟨calls, table, served⟩ := irqDispatch_effect (BitVec.ofNat 8 line.val) { state with pics := pics }
  have number : (BitVec.ofNat 8 line.val).toNat = line.val :=
    Nat.mod_eq_of_lt (Nat.lt_trans line.isLt (by decide))
  have routine : IrqState.handler { state with pics := pics } (BitVec.ofNat 8 line.val) =
      state.irqHandlers[line.val]?.join := by
    unfold IrqState.handler
    rw [number]
    exact if_pos line.isLt
  have dispatched : irqEvent (.real line) state =
      irqDispatch (BitVec.ofNat 8 line.val) { state with pics := pics } := same
  constructor
  · rw [dispatched, calls, routine]
  · rw [dispatched]
    exact table
  · rw [dispatched]
    exact served.trans (requested_acknowledged line taken)

theorem served_spurious7 {state : IrqState} (idle : state.pics.Acknowledged) :
    Served .spurious7 state [] := by
  have master : state.pics.master.isr = 0#8 := congrArg Prod.fst idle
  have slave : state.pics.slave.isr = 0#8 := congrArg Prod.snd idle
  have clear : (picReadIsr state.pics).1.setWidth 32 &&& (1#32 <<< 7) = 0#32 := by
    rw [picReadIsr_value, master, slave]
    decide
  have phantom : irqEvent .spurious7 state = ([], { state with pics := (picReadIsr state.pics).2 }) := if_pos clear
  constructor
  · rw [phantom]
  · rw [phantom]
  · rw [phantom]
    exact idle

/-- A spurious IRQ15 leaves only the cascade line to acknowledge. -/
theorem served_spurious15 {state : IrqState} (idle : state.pics.Acknowledged) :
    Served .spurious15 state [] := by
  have taken : (state.pics.deliver 2).inService = requested 2 := idle.deliver 2
  have master : (state.pics.deliver 2).master.isr = 1#8 <<< 2 := congrArg Prod.fst taken
  have slave : (state.pics.deliver 2).slave.isr = 0#8 := congrArg Prod.snd taken
  have clear : (picReadIsr (state.pics.deliver 2)).1.setWidth 32 &&& (1#32 <<< 15) = 0#32 := by
    rw [picReadIsr_value, master, slave]
    decide
  have phantom : irqEvent .spurious15 state =
      ([], { state with pics := picSendEoi 2#8 (picReadIsr (state.pics.deliver 2)).2 }) := if_pos clear
  constructor
  · rw [phantom]
  · rw [phantom]
  · rw [phantom]
    exact requested_acknowledged 2 taken

theorem lastRegistered_append (line : Nat) (events : List IrqEvent) (event : IrqEvent) :
    lastRegistered line (events ++ [event]) = match event with
      | .register irq handler => if irq.toNat = line then handler else lastRegistered line events
      | .real _ => lastRegistered line events
      | .spurious7 => lastRegistered line events
      | .spurious15 => lastRegistered line events := by
  simp only [lastRegistered, List.foldl_append, List.foldl_cons, List.foldl_nil]

theorem irqRegisterHandler_table (irq : BitVec 8) (handler : Option IrqRoutine) (state : IrqState)
    (line : Fin 16) :
    (irqRegisterHandler irq handler state).irqHandlers[line.val]? =
      if irq.toNat = line.val then some handler else state.irqHandlers[line.val]? := by
  unfold irqRegisterHandler
  by_cases inside : irq.toNat < numIrqs
  · rw [if_pos inside]
    exact (Vector.getElem?_setIfInBounds).trans (if_congr Iff.rfl (if_pos inside) rfl)
  · have other : irq.toNat ≠ line.val := fun same => inside (same ▸ line.isLt)
    rw [if_neg inside, if_neg other]

theorem irqRegisterHandler_pics (irq : BitVec 8) (handler : Option IrqRoutine) (state : IrqState) :
    (irqRegisterHandler irq handler state).pics = state.pics := by
  unfold irqRegisterHandler
  split
  · rfl
  · rfl

/-- What holds after every prefix of a run: nothing is left in service, the
table holds the last registrations, and every step called what it should. -/
structure DispatchedExactly (labels : List (IrqEvent × List IrqRoutine)) (state : IrqState) : Prop where
  acknowledged : state.pics.Acknowledged
  table : ∀ line : Fin 16, state.irqHandlers[line.val]? = some (lastRegistered line.val (labels.map Prod.fst))
  calls : ∀ (i : Nat) (label : IrqEvent × List IrqRoutine), labels[i]? = some label →
    label.2 = expectedCalls ((labels.take i).map Prod.fst) label.1

/-- One more event: enough to know what the last step did. -/
theorem DispatchedExactly.extend {earlier : List (IrqEvent × List IrqRoutine)} {state after : IrqState}
    {event : IrqEvent} {called : List IrqRoutine} (held : DispatchedExactly earlier state)
    (acknowledged : after.pics.Acknowledged)
    (table : ∀ line : Fin 16, after.irqHandlers[line.val]? =
      some (lastRegistered line.val (earlier.map Prod.fst ++ [event])))
    (matched : called = expectedCalls (earlier.map Prod.fst) event) :
    DispatchedExactly (earlier ++ [(event, called)]) after := by
  refine ⟨acknowledged, by simpa using table, ?_⟩
  intro i label found
  rcases Nat.lt_or_ge i earlier.length with old | new
  · rw [List.getElem?_append_left old] at found
    rw [List.take_append_of_le_length (Nat.le_of_lt old)]
    exact held.calls i label found
  · have last : i = earlier.length := by
      have bound := (List.getElem?_eq_some_iff.mp found).1
      simp only [List.length_append, List.length_singleton] at bound
      omega
    subst last
    simp only [List.getElem?_concat_length, Option.some.injEq] at found
    subst found
    rw [List.take_left]
    exact matched

theorem DispatchedExactly.deliver {earlier : List (IrqEvent × List IrqRoutine)} {state : IrqState}
    {event : IrqEvent} (held : DispatchedExactly earlier state)
    (served : Served event state (expectedCalls (earlier.map Prod.fst) event))
    (silent : ∀ line, lastRegistered line (earlier.map Prod.fst ++ [event]) =
      lastRegistered line (earlier.map Prod.fst)) :
    DispatchedExactly (earlier ++ [(event, (irqEvent event state).1)]) (irqEvent event state).2 := by
  refine held.extend served.acknowledged ?_ served.calls
  intro line
  rw [silent, served.table]
  exact held.table line

theorem DispatchedExactly.step {earlier : List (IrqEvent × List IrqRoutine)} {state after : IrqState}
    {label : IrqEvent × List IrqRoutine} (held : DispatchedExactly earlier state)
    (taken : IrqStep state label after) : DispatchedExactly (earlier ++ [label]) after := by
  obtain ⟨event, called⟩ := label
  have calls : (irqEvent event state).1 = called := congrArg Prod.fst taken
  have reached : (irqEvent event state).2 = after := congrArg Prod.snd taken
  rw [← calls, ← reached]
  cases event with
  | register irq handler =>
    refine held.extend ?_ ?_ rfl
    · rw [irqEvent, irqRegisterHandler_pics]
      exact held.acknowledged
    · intro line
      rw [lastRegistered_append, irqEvent, irqRegisterHandler_table, held.table line]
      exact (apply_ite some _ _ _).symm
  | real line =>
    have served := served_real held.acknowledged line
    rw [held.table line] at served
    exact held.deliver served (fun line => lastRegistered_append line _ _)
  | spurious7 => exact held.deliver (served_spurious7 held.acknowledged) (fun line => lastRegistered_append line _ _)
  | spurious15 => exact held.deliver (served_spurious15 held.acknowledged) (fun line => lastRegistered_append line _ _)

/-- Over every run of registrations and deliveries from idle chips and an empty
table, each interrupt is dispatched and acknowledged exactly. -/
theorem irq_dispatch_exact (pics : Pics) (idle : pics.Acknowledged)
    (run : Run IrqStep ⟨pics, Vector.replicate numIrqs none⟩ labels state) :
    DispatchedExactly labels state := by
  refine run.invariant DispatchedExactly ⟨idle, ?_, by simp⟩ (fun _ _ _ _ held taken => held.step taken)
  intro line
  exact (Vector.getElem?_replicate).trans (if_pos line.isLt)

def resetChip : Chip := ⟨0#8, 0#8, 0xFF#8, false, .ready, 0#8⟩

/-- A routine that masks its own line. -/
def maskKeyboard : IrqRoutine := ⟨0x1000#32, picSetMask 1#8, picSetMask_inService 1#8⟩

/-- A registered line, an unregistered one and both spurious lines in one run. -/
theorem irq_dispatch_exact_keyboard :
    ∃ state, Run IrqStep ⟨⟨resetChip, resetChip⟩, Vector.replicate numIrqs none⟩
        [(.register 1#8 (some maskKeyboard), []), (.real 1, [maskKeyboard]), (.spurious7, []),
          (.real 15, []), (.spurious15, [])] state ∧
      DispatchedExactly [(.register 1#8 (some maskKeyboard), []), (.real 1, [maskKeyboard]), (.spurious7, []),
          (.real 15, []), (.spurious15, [])] state := by
  have run : ∃ state, Run IrqStep ⟨⟨resetChip, resetChip⟩, Vector.replicate numIrqs none⟩
      ([] ++ [(.register 1#8 (some maskKeyboard), [])] ++ [(.real 1, [maskKeyboard])] ++ [(.spurious7, [])] ++
        [(.real 15, [])] ++ [(.spurious15, [])]) state :=
    ⟨_, .next (.next (.next (.next (.next .start rfl) rfl) rfl) rfl) rfl⟩
  obtain ⟨state, taken⟩ := run
  exact ⟨state, taken, irq_dispatch_exact ⟨resetChip, resetChip⟩ rfl taken⟩

end AstraOS.Interrupts
